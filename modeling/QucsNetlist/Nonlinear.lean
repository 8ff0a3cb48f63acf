import QucsNetlist.Flatten

/-! # Nonlinear lines counted through the templates (`check_netlist.cpp:414-434`, `657-692`)

`checker_validate_actions` decides whether a `.DC` action is required from the count that
`checker_count_nonlinearities` makes on the top-level list: a line with the nonlinear flag counts
once, and a `Sub` line adds the count of the body of its template, recursively, while
`checker_sub_cycles` is not positive. When every `Sub` line names a template with as many nodes and
the instantiation graph has no cycle, every cycle search stores zero, and the count follows the
instantiation chains of the expansion and reads the flags the copies take: it is the number of
nonlinear lines of the flattened list, `Sub` lines being linear. The actions the decision counts
are those of the top-level list only, while the expansion also copies the actions of template
bodies (`check_netlist.cpp:962`): the decision is the one on the flattened list when no body holds
an action, and not otherwise.
-/

namespace QucsNetlist

open Relation

/-! ### The value left in `checker_sub_cycles` -/

section Stored

theorem mem_or_zero {a b : Option Nat} (ha : ∀ e ∈ a, e = 0) (hb : ∀ e ∈ b, e = 0) :
    ∀ e ∈ a.or b, e = 0 := by
  cases a with
  | none => exact hb
  | some x => exact ha

/-- In a registry without a reachable cycle every search finds nothing, so a check stores zero. -/
theorem validateSubcircuit_stored_zero {reg : List Definition} {fuel : Nat} {d : Definition}
    {s : Nat × Option Nat × List Diagnostic} (h : validateSubcircuit reg fuel d = .ok s)
    (hacy : ∀ t, ¬ CycleFrom reg t) : ∀ e ∈ s.2.1, e = 0 := by
  unfold validateSubcircuit at h
  split at h
  · split at h
    · cases h; simp
    split at h
    · cases h; simp
    rename_i sub hsub
    obtain ⟨r, hr, h⟩ := bind_eq_ok.mp h
    cases h
    rintro e ⟨⟩
    by_contra hne
    have hroot : checkerFindSubcircuit reg sub.instance = some sub := by
      rwa [checkerFindSubcircuit_instance hsub]
    exact hacy _ (checkerValidateSubCycles_sound hroot (by simp) hr hne)
  · cases h; simp

theorem checkerValidateSubcircuits_stored_zero {reg : List Definition} {fuel : Nat}
    (hacy : ∀ t, ¬ CycleFrom reg t) :
    ∀ {l : List Definition} {s : Nat × Option Nat × List Diagnostic},
      checkerValidateSubcircuits reg fuel l = .ok s → ∀ e ∈ s.2.1, e = 0
  | [], _, h => by cases h; simp
  | d :: ds, s, h => by
    obtain ⟨here, hh, h⟩ := bind_eq_ok.mp h
    obtain ⟨rest, hr, h⟩ := bind_eq_ok.mp h
    cases h
    exact mem_or_zero (checkerValidateSubcircuits_stored_zero hacy hr)
      (validateSubcircuit_stored_zero hh hacy)

theorem netlistCheckerIntern_stored_zero {available : List Define}
    {regOf : List Definition → List Definition} {fuel : Nat} {root : List Definition}
    {r : Report × Option Nat × List Definition}
    (h : netlistCheckerIntern available regOf fuel root = .ok r)
    (hacy : ∀ l, skeletons l = skeletons root → ∀ t, ¬ CycleFrom (regOf l) t) :
    ∀ e ∈ r.2.1, e = 0 := by
  obtain ⟨checked, subs, hc, hs, hst, -, -⟩ := netlistCheckerIntern_ok h
  rw [hst]
  exact checkerValidateSubcircuits_stored_zero (hacy checked hc) hs

theorem checkBodies_stored_zero {available : List Define} {fuel : Nat} {reg R : List Definition}
    {r : Report × Option Nat × List Definition} (h : checkBodies available fuel reg = .ok r)
    (hreg : skeletons reg = skeletons R) (hacy : ∀ t, ¬ CycleFrom R t) : ∀ e ∈ r.2.1, e = 0 := by
  refine (foldlM_induct (fun st : Report × Option Nat × List Definition =>
    skeletons st.2.2 = skeletons R ∧ ∀ e ∈ st.2.1, e = 0) (fun st k st' hst hs => ?_)
    ⟨hreg, fun _ he => by cases he⟩ h).2
  refine ⟨(skeletons_checkBody hs).trans hst.1, ?_⟩
  unfold checkBody at hs
  split at hs
  · cases hs; exact hst.2
  rename_i T hT
  obtain ⟨r', hr', hs⟩ := bind_eq_ok.mp hs
  cases hs
  refine mem_or_zero (netlistCheckerIntern_stored_zero hr' fun l hl t => mt (cycleFrom_of_skeletons
    ((map_modify_at (skeleton_sub (shapes_of_skeletons hl)) hT).trans hst.1)).mp (hacy t)) hst.2

/-- The line checks of a registry without cycles leave nothing but zero in
`checker_sub_cycles`. -/
theorem checkLists_stored_zero {available : List Define} {fuel : Nat} {L R : List Definition}
    {r : Report} {stored : Option Nat} {root reg : List Definition}
    (h : checkLists available fuel L R = .ok (r, stored, root, reg))
    (hacy : ∀ t, ¬ CycleFrom (checkerBuildSubcircuits L R).2 t) : ∀ e ∈ stored, e = 0 := by
  unfold checkLists at h
  obtain ⟨top, htop, h⟩ := bind_eq_ok.mp h
  obtain ⟨defs, hdefs, h⟩ := bind_eq_ok.mp h
  obtain ⟨bodies, hbodies, h⟩ := bind_eq_ok.mp h
  simp only [except_pure, Except.ok.injEq, Prod.mk.injEq] at h
  obtain ⟨-, rfl, -, -⟩ := h
  obtain ⟨-, -, -, -, -, -, hdefs'⟩ := netlistCheckerIntern_ok hdefs
  exact mem_or_zero (checkBodies_stored_zero hbodies hdefs' hacy) (mem_or_zero
    (netlistCheckerIntern_stored_zero hdefs fun l hl t => mt (cycleFrom_of_skeletons hl).mp (hacy t))
    (netlistCheckerIntern_stored_zero htop fun _ _ t => hacy t))

end Stored

/-! ### `Sub` lines stay linear -/

/-- A `Sub` line does not carry the nonlinear flag. -/
def SubLinear (d : Definition) : Prop := d.type = "Sub" → d.nonlinear = false

/-- The type and the nonlinear flag of a line, all `SubLinear` reads. -/
def Definition.typeFlag (d : Definition) : String × Bool := (d.type, d.nonlinear)

theorem subLinear_of_typeFlags {l l' : List Definition}
    (h : l'.map Definition.typeFlag = l.map Definition.typeFlag) (hl : ∀ d ∈ l, SubLinear d) :
    ∀ d ∈ l', SubLinear d := by
  intro d' hd' hs
  have hmem := List.mem_map_of_mem Definition.typeFlag hd'
  rw [h, List.mem_map] at hmem
  obtain ⟨d, hd, hdd⟩ := hmem
  simp only [Definition.typeFlag, Prod.mk.injEq] at hdd
  rw [← hdd.2]
  exact hl d hd (hdd.1.trans hs)

section Linear

variable {available : List Define} (hcat : ∀ a ∈ available, a.type = "Sub" → a.nonlinear = false)
include hcat

/-- A line annotated from its catalog entry is linear if it is a `Sub` line. -/
theorem annotate_subLinear {a : Define} {d : Definition}
    (ha : checkerFindDefinition available d.type d.action = some a) : SubLinear (annotate a d) := by
  intro hs
  have hty : a.type = d.type := by
    have := List.find?_some ha
    simp only [Bool.and_eq_true, beq_iff_eq] at this
    exact this.1
  exact hcat a (List.mem_of_find?_eq_some ha) (hty.trans hs)

theorem checkLine_subLinear {root : List Definition} {i : Nat} {d : Definition}
    (hroot : ∀ e ∈ root, SubLinear e) (hd : root[i]? = some d) :
    ∀ e ∈ (checkLine available root i d).2, SubLinear e := by
  unfold checkLine
  split
  · exact hroot
  rename_i a ha
  refine subLinear_of_typeFlags (foldl_inv (fun s : Report × List Definition =>
    s.2.map Definition.typeFlag) (fun s j => views_checkPair (V := Definition.typeFlag) (fun _ _ _ => rfl) a i j s) _ _) ?_
  refine forall_mem_modify hroot fun x hx => ?_
  obtain rfl : d = x := Option.some.inj (hd.symm.trans hx)
  exact annotate_subLinear hcat ha

theorem checkDefinition_subLinear {st : Report × List Definition} (i : Nat)
    (hst : ∀ e ∈ st.2, SubLinear e) : ∀ e ∈ (checkDefinition available st i).2, SubLinear e := by
  unfold checkDefinition
  split
  · exact hst
  rename_i d hd
  exact subLinear_of_typeFlags
    (views_countDefinitionFrom (V := Definition.typeFlag) (fun _ => rfl) _ _ 0 _)
    (checkLine_subLinear hcat hst hd)

theorem netlistCheckerIntern_subLinear {regOf : List Definition → List Definition} {fuel : Nat}
    {root : List Definition} {r : Report × Option Nat × List Definition}
    (h : netlistCheckerIntern available regOf fuel root = .ok r) (hroot : ∀ e ∈ root, SubLinear e) :
    ∀ e ∈ r.2.2, SubLinear e := by
  unfold netlistCheckerIntern at h
  obtain ⟨subs, -, h⟩ := bind_eq_ok.mp h
  obtain ⟨nodesets, hn, h⟩ := bind_eq_ok.mp h
  cases h
  refine subLinear_of_typeFlags ((views_checkerValidateNodesets (V := Definition.typeFlag)
    (fun _ => rfl) hn).trans
    (views_checkerValidateStrips (V := Definition.typeFlag) (fun _ => rfl) _)) ?_
  exact foldl_induct (fun st : Report × List Definition => ∀ e ∈ st.2, SubLinear e)
    (fun st i hst => checkDefinition_subLinear hcat i hst) _ _ hroot

theorem checkBodies_subLinear {fuel : Nat} {reg : List Definition}
    {r : Report × Option Nat × List Definition} (h : checkBodies available fuel reg = .ok r)
    (hreg : ∀ T ∈ reg, ∀ e ∈ T.sub, SubLinear e) : ∀ T ∈ r.2.2, ∀ e ∈ T.sub, SubLinear e := by
  refine foldlM_induct (fun st : Report × Option Nat × List Definition =>
    ∀ T ∈ st.2.2, ∀ e ∈ T.sub, SubLinear e) (fun st k st' hst hs => ?_) hreg h
  unfold checkBody at hs
  split at hs
  · cases hs; exact hst
  rename_i T hT
  obtain ⟨r', hr', hs⟩ := bind_eq_ok.mp hs
  cases hs
  refine forall_mem_modify hst fun x hx => ?_
  obtain rfl : T = x := Option.some.inj (hT.symm.trans hx)
  exact netlistCheckerIntern_subLinear hcat hr' (hst T (List.getElem?_mem hT))

/-- With a linear catalog entry for `Sub`, the line checks keep `Sub` lines linear. -/
theorem checkLists_subLinear {fuel : Nat} {L R : List Definition} {r : Report}
    {stored : Option Nat} {root reg : List Definition}
    (h : checkLists available fuel L R = .ok (r, stored, root, reg))
    (hL : EveryLines SubLinear L) (hR : ∀ T ∈ R, SubLinear T ∧ ∀ e ∈ T.sub, SubLinear e) :
    (∀ d ∈ root, SubLinear d) ∧ ∀ T ∈ reg, ∀ e ∈ T.sub, SubLinear e := by
  obtain ⟨htop, hbod⟩ := checkerBuildSubcircuits_every (fun _ _ h => h) L R hL hR
  unfold checkLists at h
  obtain ⟨top, htop', h⟩ := bind_eq_ok.mp h
  obtain ⟨defs, hdefs, h⟩ := bind_eq_ok.mp h
  obtain ⟨bodies, hbodies, h⟩ := bind_eq_ok.mp h
  simp only [except_pure, Except.ok.injEq, Prod.mk.injEq] at h
  obtain ⟨-, -, rfl, rfl⟩ := h
  refine ⟨netlistCheckerIntern_subLinear hcat htop' htop, checkBodies_subLinear hcat hbodies ?_⟩
  obtain ⟨-, -, -, -, -, -, hsub⟩ := views_netlistCheckerIntern (V := Definition.sub)
    (fun _ => rfl) (fun _ _ _ => rfl) (fun _ _ => rfl) hdefs
  intro T hT e he
  have hmem := List.mem_map_of_mem Definition.sub hT
  rw [hsub, List.mem_map] at hmem
  obtain ⟨T0, hT0, hTT⟩ := hmem
  exact (hbod T0 hT0).2 e (hTT ▸ he)

end Linear

/-! ### The count against the reference flattening -/

theorem foldlM_countP {α β ε : Type} {g : α → List β} {p : β → Bool}
    {f : Nat → α → Except ε Nat} :
    ∀ {l : List α}, (∀ x ∈ l, ∀ n, f n x = .ok (n + (g x).countP p)) →
      ∀ n, l.foldlM f n = .ok (n + (l.flatMap g).countP p)
  | [], _, n => by simp
  | x :: l, h, n => by
    rw [List.foldlM_cons, h x (List.mem_cons_self x l), ok_bind,
      foldlM_countP (fun y hy => h y (List.mem_cons_of_mem x hy)), List.flatMap_cons,
      List.countP_append, Nat.add_assoc]

section Count

variable {reg : List Definition}

theorem refInstance_of_none {fuel : Nat} {path : List String} {x : Definition}
    {act : List (Option String)} (h : checkerGetSubcircuit reg x = none) :
    refInstance reg fuel path x act = [] := by
  cases fuel <;> simp [refInstance, h]

variable (hlin : ∀ T ∈ reg, ∀ e ∈ T.sub, SubLinear e)
include hlin

/-- Through the body of a template reached without a cycle, the count is the number of
nonlinear lines among the reference copies of the instance. -/
theorem checkerCountNonlinearities_body :
    ∀ (fuel : Nat) {P path : List String} {x T : Definition} {act : List (Option String)},
      checkerGetSubcircuit reg x = some T → Descent reg P T.instance → pathRoom reg P < fuel →
      checkerCountNonlinearities reg 0 fuel T.sub =
        .ok ((refInstance reg fuel path x act).countP (·.nonlinear))
  | 0, _, _, _, _, _, _, _, h => by omega
  | fuel + 1, P, path, x, T, act, hT, hD, h => by
    have hTself := getSubcircuit_self hT
    have hroom := hD.room hTself
    simp only [checkerCountNonlinearities, refInstance, hT]
    rw [foldlM_countP (fun e he n => ?_) 0, Nat.zero_add]
    unfold countStep refLine
    by_cases hs : e.type = "Sub"
    · have hl : e.nonlinear = false := hlin T (checkerFindSubcircuit_mem hTself) e he hs
      cases hT' : checkerGetSubcircuit reg e with
      | none => simp [hs, hl, hT', refInstance_of_none hT']
      | some T' =>
        have hc : checkerCountNonlinearities reg 0 fuel T'.sub = .ok ((refInstance reg fuel
            (path ++ [x.instance]) e (e.nodes.map fun n => refNode T (path ++ [x.instance]) act
              n.node)).countP (·.nonlinear)) :=
          checkerCountNonlinearities_body fuel hT' (hD.child (subEdge_of_get hTself he hs hT'))
            (by omega)
        simp [hs, hl, hT', hc]
    · cases hn : e.nonlinear <;> simp [hs, hn, Definition.flat, List.countP_singleton]

/-- On a top-level list whose `Sub` lines lead to no cycle, the count is the number of nonlinear
lines of the reference flattening. -/
theorem checkerCountNonlinearities_top {root : List Definition} (hroot : ∀ d ∈ root, SubLinear d)
    (hacy : SubsAcyclic reg root) {fuel : Nat} (hfuel : reg.length < fuel) :
    checkerCountNonlinearities reg 0 (fuel + 1) root =
      .ok ((refFlatten reg root).countP (·.nonlinear)) := by
  simp only [checkerCountNonlinearities, refFlatten]
  rw [foldlM_countP (fun d hd n => ?_) 0, Nat.zero_add]
  unfold countStep
  by_cases hs : d.type = "Sub"
  · have hl : d.nonlinear = false := hroot d hd hs
    cases hT : checkerGetSubcircuit reg d with
    | none => simp [hs, hl, hT, refInstance_of_none hT]
    | some T =>
      have hD := Descent.start (hacy d hd hs T hT)
      have hroom : pathRoom reg [] ≤ reg.length := pathRoom_le
      have hf : refInstance reg fuel [] d (d.nodes.map (·.node)) =
          refInstance reg (reg.length + 1) [] d (d.nodes.map (·.node)) :=
        refInstance_fuel hT hD (by omega) (by omega)
      have hc : checkerCountNonlinearities reg 0 fuel T.sub = .ok ((refInstance reg fuel [] d
          (d.nodes.map (·.node))).countP (·.nonlinear)) :=
        checkerCountNonlinearities_body hlin fuel hT hD (by omega)
      simp [hs, hl, hT, ← hf, hc]
  · cases hn : d.nonlinear <;> simp [hs, hn, Definition.flat, List.countP_singleton]

end Count

/-! ### The actions of the flattened list -/

section Actions

variable {reg : List Definition} (hact : ∀ T ∈ reg, ∀ e ∈ T.sub, e.action = false)
include hact

/-- Without an action in a template body, no copy of an instance is an action. -/
theorem refInstance_no_action : ∀ (fuel : Nat) (path : List String) (x : Definition)
    (act : List (Option String)), ∀ f ∈ refInstance reg fuel path x act, f.action = false
  | 0, _, _, _, _, hf => absurd hf (List.not_mem_nil _)
  | fuel + 1, path, x, act, f, hf => by
    simp only [refInstance] at hf
    split at hf
    · exact absurd hf (List.not_mem_nil _)
    rename_i T hT
    obtain ⟨e, he, hf⟩ := List.mem_flatMap.mp hf
    unfold refLine at hf
    split at hf
    · exact refInstance_no_action fuel _ _ _ f hf
    · rw [List.mem_singleton.mp hf]
      exact hact T (checkerFindSubcircuit_mem (getSubcircuit_self hT)) e he

/-- Without an action in a template body, the reference flattening has, of every type but
`Sub`, the actions of the top-level list. -/
theorem refFlatten_actions {t : String} (ht : t ≠ "Sub") : ∀ root : List Definition,
    (refFlatten reg root).countP (fun f => f.action == true && (some t).all (· == f.type)) =
      checkerCountDefinitions root (some t) true
  | [] => rfl
  | d :: ds => by
    show ((if d.type = "Sub" then _ else [d.flat]) ++ refFlatten reg ds).countP _ =
      (d :: ds).countP _
    rw [List.countP_append, refFlatten_actions ht ds, List.countP_cons, Nat.add_comm]
    congr 1
    by_cases hs : d.type = "Sub"
    · rw [if_pos hs, List.countP_eq_zero.mpr fun f hf => by
        simp [refInstance_no_action hact _ _ _ _ f hf]]
      simp [hs, ht]
    · rw [if_neg hs, List.countP_singleton]
      rfl

end Actions

/-! ### The count of `checker_validate_actions` -/

/-- For the lists the line checks hand to `checker_validate_actions`, built from parsed input
whose `Sub` lines are linear: when every `Sub` line of the top-level list and of the templates
names a template with as many nodes, the instantiation graph has no cycle and the catalog's `Sub`
entry is linear, the count of nonlinear lines the actions check makes, with the value the line
checks left in `checker_sub_cycles` (or the value before the run, if they stored none), is, given
enough fuel, the number of nonlinear lines of the flattened list. When no template body holds an
action, the flattened list also has, of every type but `Sub`, as many actions as the top-level
list, so the `.DC` decision taken on the hierarchy is the one on the flattened list. -/
theorem nonlinear_count_flattened {available : List Define} {fuel : Nat}
    {G R0 L R : List Definition} {r : Report} {stored : Option Nat} {root reg : List Definition}
    (h : checkLists available fuel G R0 = .ok (r, stored, root, reg))
    (hb : checkerBuildSubcircuits G R0 = (L, R)) (hres : SubsResolve R L)
    (hbod : ∀ T ∈ R, SubsResolve R T.sub) (hacy : ∀ w, ¬ TransGen (SubEdge R) w w)
    (hcat : ∀ a ∈ available, a.type = "Sub" → a.nonlinear = false)
    (hG : EveryLines SubLinear G) (hR0 : ∀ T ∈ R0, SubLinear T ∧ ∀ e ∈ T.sub, SubLinear e)
    (hp : ParsedLines G) (hq : BodiesParsed R0) (s : Nat) :
    ∃ N, ∀ n, N ≤ n → ∃ X,
      checkerExpandSubcircuits n reg root = .ok (reg, X) ∧
      checkerCountNonlinearities reg (stored.getD s) n root = .ok (X.countP (·.nonlinear)) ∧
      ((∀ T ∈ R, ∀ e ∈ T.sub, e.action = false) → ∀ t, t ≠ "Sub" →
        checkerCountDefinitions X (some t) true = checkerCountDefinitions root (some t) true) := by
  obtain ⟨hroot, hreg⟩ := checkLists_skeletons h
  rw [hb] at hroot hreg
  have hnc : ∀ t, ¬ CycleFrom R t := fun t ⟨w, _, hw⟩ => hacy w hw
  have hacc : Accepted root reg := by
    refine ⟨hres.transfer hreg.symm (shapes_of_skeletons hroot),
      fun _ _ _ T _ => mt (cycleFrom_of_skeletons hreg).mp (hnc T.instance), fun T hT => ?_⟩
    obtain ⟨T0, hT0, hTT⟩ := mem_of_skeletons hreg hT
    exact (hbod T0 hT0).transfer hreg.symm (congrArg Prod.snd hTT).symm
  have hparsed := checkLists_parsed h hp hq
  obtain ⟨hlinTop, hlinBod⟩ := checkLists_subLinear hcat h hG hR0
  have hflag : ∀ n, checkerCountNonlinearities reg (stored.getD s) n root =
      checkerCountNonlinearities reg 0 n root := fun n => by
    cases hst : stored with
    | none => exact checkerCountNonlinearities_cycles 0 (checkLists_stored (hst ▸ h))
    | some e =>
      rw [checkLists_stored_zero h (by rw [hb]; exact hnc) e hst]
      rfl
  refine ⟨expandBound reg root + 2, fun n hn => ?_⟩
  obtain ⟨X, hX, hperm, -⟩ := accepted_flatten hacc ⟨hacc.bodies, hparsed.2⟩ hparsed.1
    (by omega : expandBound reg root < n)
  obtain ⟨m, rfl⟩ : ∃ m, n = m + 1 := ⟨n - 1, by omega⟩
  have hm : reg.length < m := by have := (le_expandBound reg root).1; omega
  refine ⟨X, hX, ?_, fun hact t ht => ?_⟩
  · rw [hflag, checkerCountNonlinearities_top hlinBod hlinTop hacc.acyclic hm, ← hperm.countP_eq,
      List.countP_map]
    rfl
  · have hact' : ∀ T ∈ reg, ∀ e ∈ T.sub, e.action = false := fun T hT e he => by
      obtain ⟨T0, hT0, hTT⟩ := mem_of_skeletons hreg hT
      obtain ⟨e0, he0, hee⟩ := mem_of_shapes (congrArg Prod.snd hTT).symm he
      rw [← (shape_eq_iff.mp hee).2.2.1]
      exact hact T0 hT0 e0 he0
    calc checkerCountDefinitions X (some t) true
        = (X.map Definition.flat).countP
            (fun f => f.action == true && (some t).all (· == f.type)) := by
          rw [List.countP_map]; rfl
      _ = checkerCountDefinitions root (some t) true :=
          (hperm.countP_eq _).trans (refFlatten_actions hact' ht root)

/-- A two-stage amplifier: `Amp` instantiates the template `Stage`, a JFET, twice. -/
def amplifierNetlist : List Definition :=
  [{ type := "Def", «instance» := "Stage", nodes := [namedNode "p", namedNode "q"],
     sub := [{ type := "JFET", «instance» := "J1", nodes := [namedNode "p", namedNode "q",
               namedNode "gnd"], pairs := [identPair "Type" "nfet"], sub := [] }] },
   { type := "Def", «instance» := "Amp", nodes := [namedNode "a", namedNode "b"],
     sub := [{ type := "Sub", «instance» := "s1", nodes := [namedNode "a", namedNode "m"],
               pairs := [identPair "Type" "Stage"], sub := [] },
             { type := "Sub", «instance» := "s2", nodes := [namedNode "m", namedNode "b"],
               pairs := [identPair "Type" "Stage"], sub := [] }] },
   { type := "Sub", «instance» := "x1", nodes := [namedNode "n1", namedNode "n2"],
     pairs := [identPair "Type" "Amp"], sub := [] },
   { type := "DC", «instance» := "DC1", action := true, sub := [] }]

theorem amplifier_count_flattened :
    ∃ r stored root reg, checkLists transistorCatalog 4 amplifierNetlist [] =
        .ok (r, stored, root, reg) ∧
      ∃ N, ∀ n, N ≤ n → ∃ X, checkerExpandSubcircuits n reg root = .ok (reg, X) ∧
        checkerCountNonlinearities reg (stored.getD 0) n root = .ok (X.countP (·.nonlinear)) ∧
        ((∀ T ∈ (checkerBuildSubcircuits amplifierNetlist []).2, ∀ e ∈ T.sub, e.action = false) →
          ∀ t, t ≠ "Sub" →
            checkerCountDefinitions X (some t) true = checkerCountDefinitions root (some t) true) := by
  obtain ⟨r, stored, root, reg, h⟩ : ∃ r stored root reg,
      checkLists transistorCatalog 4 amplifierNetlist [] = .ok (r, stored, root, reg) :=
    ⟨_, _, _, _, rfl⟩
  refine ⟨r, stored, root, reg, h, nonlinear_count_flattened h rfl (by decide) (by decide)
    (acyclic_of_rank (fun t => if t = "Amp" then 2 else if t = "Stage" then 1 else 0) (by decide))
    (by decide) ?_ (fun _ h => absurd h (List.not_mem_nil _)) ?_
    (fun _ h => absurd h (List.not_mem_nil _)) 0⟩
  · simp [amplifierNetlist, EveryLines, EveryLine, SubLinear]
  · simp [amplifierNetlist, ParsedLines, ParsedLine, Node.Parsed, namedNode]

/-- A `.DC` action only inside a template instantiated next to an `.AC` analysis of a JFET. -/
def dcInTemplate : List Definition :=
  [{ type := "Def", «instance» := "T", nodes := [namedNode "p"],
     sub := [{ type := "DC", «instance» := "DC1", action := true, sub := [] }] },
   { type := "Sub", «instance» := "x", nodes := [namedNode "n1"],
     pairs := [identPair "Type" "T"], sub := [] },
   { type := "JFET", «instance» := "J1",
     nodes := [namedNode "n1", namedNode "n2", namedNode "gnd"], sub := [] },
   { type := "AC", «instance» := "AC1", action := true,
     pairs := [identPair "Type" "lin", numberPair "Start" 1, numberPair "Stop" 2,
       numberPair "Points" 3], sub := [] }]

/-- The run reports, as its only error, that the nonlinear line needs a `.DC` action, while the
flattened list of the checked lists has the copy of the template's `.DC` action next to the
`.AC` analysis, and the same analysis checks on it report nothing. -/
theorem template_dc_unseen :
    (netlistChecker analysisCatalog 4 { definitionRoot := dcInTemplate }).map
        (fun x => (x.1, x.2.2)) = .ok (-1, [.dcRequired 1]) ∧
    (netlistCheckerValidate analysisCatalog 4 { definitionRoot := dcInTemplate } >>= fun x =>
        checkerExpandSubcircuits 4 x.2.subcircuitRoot x.2.definitionRoot).map
          (fun x => x.2.map fun d => (d.type, d.instance, d.action, d.nonlinear)) =
      .ok [("DC", "T.x.DC1", true, false), ("JFET", "J1", false, true), ("AC", "AC1", true, false)] ∧
    (netlistCheckerValidate analysisCatalog 4 { definitionRoot := dcInTemplate } >>= fun x =>
        checkerExpandSubcircuits 4 x.2.subcircuitRoot x.2.definitionRoot >>= fun y =>
          checkAnalyses y.1 0 4 y.2) = .ok {} :=
  ⟨rfl, rfl, rfl⟩

end QucsNetlist
