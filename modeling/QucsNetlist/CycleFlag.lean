import QucsNetlist.Accept

/-! # The static `checker_sub_cycles`

`checker_validate_subcircuits` stores the result of each cycle search in the static
`checker_sub_cycles`, and `checker_count_nonlinearities` descends into the templates of `Sub`
lines only while it is zero. The value it reads is therefore the result for the last `Sub`
line of the last list checked, whatever template the count is in. Across runs the value
survives `netlist_destroy`, but a run reads it only when its own lists have no `Sub` line
naming a template, and then the count never looks at it.
-/

namespace QucsNetlist

/-! ### Across runs -/

/-- The checks of a run depend on the value `checker_sub_cycles` had before it only through
the value they leave in it. -/
theorem netlistCheckerValidate_subCycles (available : List Define) (fuel : Nat)
    (L R : List Definition) (s s' : Nat) :
    (netlistCheckerValidate available fuel ⟨L, R, s⟩).map
        (fun x => (x.1, x.2.definitionRoot, x.2.subcircuitRoot)) =
      (netlistCheckerValidate available fuel ⟨L, R, s'⟩).map
        (fun x => (x.1, x.2.definitionRoot, x.2.subcircuitRoot)) := by
  unfold netlistCheckerValidate
  cases h : checkLists available fuel L R with
  | error e => rfl
  | ok x =>
    obtain ⟨r, stored, root, reg⟩ := x
    cases stored with
    | some c => rfl
    | none =>
      simp only [ok_bind, Option.getD_none]
      rw [checkerValidateActions_cycles s s' (checkLists_stored h)]
      cases checkerValidateActions reg s' fuel root <;> rfl

/-- A second run of `netlist_checker`, after `netlist_destroy` has released the lists of a
first one, returns what a first run on the same netlist returns: the same value, the same
lists and the same messages. -/
theorem rerun_ignores_stale_cycles (available : List Define) (fuel : Nat) (g1 : Globals)
    (G2 : List Definition) :
    (netlistChecker available fuel { netlistDestroy g1 with definitionRoot := G2 }).map
        (fun x => (x.1, x.2.1.definitionRoot, x.2.1.subcircuitRoot, x.2.2)) =
      (netlistChecker available fuel { definitionRoot := G2 }).map
        (fun x => (x.1, x.2.1.definitionRoot, x.2.1.subcircuitRoot, x.2.2)) := by
  have hv := netlistCheckerValidate_subCycles available fuel G2 [] g1.subCycles 0
  unfold netlistChecker
  show (netlistCheckerValidate available fuel ⟨G2, [], g1.subCycles⟩ >>= _).map _ =
    (netlistCheckerValidate available fuel ⟨G2, [], 0⟩ >>= _).map _
  cases hx : netlistCheckerValidate available fuel ⟨G2, [], g1.subCycles⟩ with
  | error e =>
    cases hy : netlistCheckerValidate available fuel ⟨G2, [], 0⟩ with
    | error e' => rw [hx, hy] at hv; cases hv; rfl
    | ok y => rw [hx, hy] at hv; cases hv
  | ok x =>
    cases hy : netlistCheckerValidate available fuel ⟨G2, [], 0⟩ with
    | error e' => rw [hx, hy] at hv; cases hv
    | ok y =>
      rw [hx, hy] at hv
      obtain ⟨r, g⟩ := x
      obtain ⟨r', g'⟩ := y
      simp only [Except.map, Except.ok.injEq, Prod.mk.injEq] at hv
      obtain ⟨rfl, h1, h2⟩ := hv
      simp only [ok_bind, h1, h2]
      split
      · cases checkerExpandSubcircuits fuel g'.subcircuitRoot g'.definitionRoot <;> rfl
      · simp [Except.map, h1, h2]

/-! ### Within a run -/

/-- With `checker_sub_cycles` left at zero by the line checks, a netlist whose top level has an
action and instantiates a template that instantiates itself makes `netlist_checker` run
forever: the count of nonlinear lines descends into the template again and again. -/
theorem netlistChecker_diverges {available : List Define} {fuel : Nat} {g : Globals} {a : String}
    {T : Definition}
    (h : ∃ r root reg,
      checkLists available fuel g.definitionRoot g.subcircuitRoot = .ok (r, some 0, root, reg))
    (hact : ∃ d ∈ (checkerBuildSubcircuits g.definitionRoot g.subcircuitRoot).1, d.action)
    (hx : ∃ d ∈ (checkerBuildSubcircuits g.definitionRoot g.subcircuitRoot).1,
      d.type = "Sub" ∧ checkerFindReference d "Type" = some a)
    (hT : checkerFindSubcircuit (checkerBuildSubcircuits g.definitionRoot g.subcircuitRoot).2 a =
      some T)
    (hy : ∃ e ∈ T.sub, e.type = "Sub" ∧ checkerFindReference e "Type" = some a) :
    netlistChecker available fuel g = .error .outOfFuel := by
  obtain ⟨r, root, reg, hl⟩ := h
  obtain ⟨hroot, hreg⟩ := checkLists_skeletons hl
  have hsh := shapes_of_skeletons hroot.symm
  obtain ⟨d, hd, hda⟩ := hact
  obtain ⟨d', hd', hdd⟩ := mem_of_shapes hsh hd
  obtain ⟨x, hxm, hxs, hxa⟩ := hx
  obtain ⟨x', hx', hxx⟩ := mem_of_shapes hsh hxm
  have hmap := congrArg (Option.map Definition.skeleton) hT
  rw [Option.map_some', checkerFindSubcircuit_skeleton, ← hreg,
    ← checkerFindSubcircuit_skeleton] at hmap
  obtain ⟨T', hT', hTT⟩ := Option.map_eq_some'.mp hmap
  obtain ⟨e, he, hes, hea⟩ := hy
  obtain ⟨e', he', hee⟩ := mem_of_shapes (congrArg Prod.snd hTT).symm he
  have hget : ∀ y y' : Definition, y'.shape = y.shape → checkerFindReference y "Type" = some a →
      checkerGetSubcircuit reg y' = some T' := fun y y' hy ha => by
    simp [checkerGetSubcircuit, checkerFindReference_of_shape hy, ha, hT']
  have hcount : checkerCountNonlinearities reg 0 fuel root = .error .outOfFuel :=
    checkerCountNonlinearities_diverges
      (fun l (hl : l = root ∨ l = T'.sub) => by
        rcases hl with rfl | rfl
        · exact ⟨x', hx', (shape_eq_iff.mp hxx).1.trans hxs, T', hget x x' hxx hxa, .inr rfl⟩
        · exact ⟨e', he', (shape_eq_iff.mp hee).1.trans hes, T', hget e e' hee hea, .inr rfl⟩)
      fuel root (.inl rfl)
  have hacts : checkerCountDefinitions root none true ≠ 0 := Nat.pos_iff_ne_zero.mp
    (List.countP_pos_iff.mpr ⟨d', hd', by simp [(shape_eq_iff.mp hdd).2.2.1, hda]⟩)
  simp [netlistChecker, netlistCheckerValidate, hl, checkerValidateActions, checkAnalyses,
    hacts, hcount]

/-- Three templates, which the build pushes on the registry as `A`, `B`, `C`: `A` instantiates
itself, `B` instantiates `C`, and the top level instantiates `A` next to a `.DC` action. The
top-level search reports the cycle, but the body of `B`, the last body checked that has a `Sub`
line (`C`'s, checked after it, has none and stores nothing), leaves `checker_sub_cycles` at
zero. -/
def staleCycleNetlist : List Definition :=
  [{ type := "Def", «instance» := "C", nodes := [namedNode "p"],
     sub := [{ type := "R", «instance» := "R1", nodes := [namedNode "p", namedNode "gnd"],
               pairs := [numberPair "R" 1], sub := [] }] },
   { type := "Def", «instance» := "B", nodes := [namedNode "p"],
     sub := [{ type := "Sub", «instance» := "z", nodes := [namedNode "p"],
               pairs := [identPair "Type" "C"], sub := [] }] },
   { type := "Def", «instance» := "A", nodes := [namedNode "p"],
     sub := [{ type := "Sub", «instance» := "y", nodes := [namedNode "p"],
               pairs := [identPair "Type" "A"], sub := [] }] },
   { type := "Sub", «instance» := "x", nodes := [namedNode "n1"], pairs := [identPair "Type" "A"],
     sub := [] },
   { type := "DC", «instance» := "DC1", action := true, sub := [] }]

theorem stale_cycle_flag_diverges (fuel : Nat) :
    netlistChecker sampleCatalog fuel { definitionRoot := staleCycleNetlist } =
      .error .outOfFuel := by
  match fuel with
  | 0 | 1 | 2 => rfl
  | f + 3 =>
    exact netlistChecker_diverges ⟨_, _, _, rfl⟩ ⟨_, .tail _ (.head _), rfl⟩
      ⟨_, .head _, rfl, rfl⟩ rfl ⟨_, .head _, rfl, rfl⟩

end QucsNetlist
