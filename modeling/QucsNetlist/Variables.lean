import QucsNetlist.Checker

/-! # Sweep variables (`netlist_checker_variables`, `check_netlist.cpp:784-848`)

After the netlist and the equations are checked, `netlist_checker_variables_intern` walks the
parameter sweeps that have both a `Param` and a `Sim` identifier. It reports a `Param` that is
also an equation variable, and compares each sweep with one earlier sweep only: the newest one
with the same `Param` (found by `strlist::index` in `vars`), whose `Sim` must agree, and the
newest one with the same `Sim` (found in `refs`), whose `Param` must agree. Each sweep then
joins the head of the three parallel lists `instances`, `vars` and `refs`. Checked in this
order, one lookup per list is enough: the check reports no error exactly when two sweeps have
the same `Param` if and only if they have the same `Sim`.
-/

namespace QucsNetlist

/-! ### The model -/

/-- The messages of `netlist_checker_variables_intern`. -/
inductive VariableDiagnostic where
  /-- `checker error, equation variable %s already defined by %s:%s` -/
  | equationVariable (ident type inst : String)
  /-- `checker error, variable %s in %s:%s already defined by %s:%s` -/
  | variableDefined (ident type inst type' inst' : String)
  /-- `checker error, conflicting variables %s in %s:%s and %s in %s:%s for %s` -/
  | conflictingVariables (ident type inst other type' inst' sim : String)
  deriving Repr, DecidableEq

/-- Modelled from the spec: `strlist::index`, the position of the first string of the list
equal to `s` (`-1`, here `none`, when there is none). -/
def strlistIndex : List String → String → Option Nat
  | [], _ => none
  | x :: xs, s => if x = s then some 0 else (strlistIndex xs s).map (· + 1)

/-- Modelled from the spec: `strlist::get`, the string at a position (`NULL` past the end). -/
def strlistGet (l : List String) (pos : Nat) : Option String := l[pos]?

/-- The lists `instances`, `vars` and `refs`; `strlist::add` puts a string at the head. -/
structure SweepLists where
  instances : List String := []
  vars : List String := []
  refs : List String := []

/-- The `Param` and `Sim` identifiers of a parameter sweep that has both. -/
def sweepVariable (d : Definition) : Option (String × String) :=
  if d.action ∧ d.type = "SW" then
    match checkerFindReference d "Param", checkerFindReference d "Sim" with
    | some para, some ref => some (para, ref)
    | _, _ => none
  else none

/-- The messages for the sweep `d` with `Param` `para` and `Sim` `ref`, against the sweeps
already in the lists. -/
def sweepMessages (eqnvars : List String) (lists : SweepLists) (d : Definition)
    (para ref : String) : List VariableDiagnostic :=
  (if para ∈ eqnvars then [.equationVariable para d.type d.instance] else []) ++
  (match strlistIndex lists.vars para with
    | some pos =>
      if strlistGet lists.refs pos ≠ some ref then
        [.variableDefined para d.type d.instance d.type ((strlistGet lists.instances pos).getD "")]
      else []
    | none => []) ++
  (match strlistIndex lists.refs ref with
    | some pos =>
      if strlistGet lists.vars pos ≠ some para then
        [.conflictingVariables para d.type d.instance ((strlistGet lists.vars pos).getD "") d.type
          ((strlistGet lists.instances pos).getD "") ref]
      else []
    | none => [])

/-- One line of the loop of `netlist_checker_variables_intern`: the error count, the messages
and the lists. -/
def checkSweepVariables (eqnvars : List String)
    (acc : Nat × List VariableDiagnostic × SweepLists) (d : Definition) :
    Nat × List VariableDiagnostic × SweepLists :=
  match sweepVariable d with
  | none => acc
  | some (para, ref) =>
    let msgs := sweepMessages eqnvars acc.2.2 d para ref
    (acc.1 + msgs.length, acc.2.1 ++ msgs,
      { instances := d.instance :: acc.2.2.instances, vars := para :: acc.2.2.vars,
        refs := ref :: acc.2.2.refs })

/-- `netlist_checker_variables_intern (root)` with the equation variables `eqnvars` (empty when
`equation_variables ()` returns `NULL`): the error count and the messages. -/
def netlistCheckerVariablesIntern (eqnvars : List String) (root : List Definition) :
    Nat × List VariableDiagnostic :=
  let r := root.foldl (checkSweepVariables eqnvars) (0, [], {})
  (r.1, r.2.1)

/-- `netlist_checker_variables`: the check of `definition_root`. -/
def netlistCheckerVariables (eqnvars : List String) (g : Globals) : Nat × List VariableDiagnostic :=
  netlistCheckerVariablesIntern eqnvars g.definitionRoot

/-! ### One lookup against all pairs -/

/-- The lists after the sweeps `E`, newest first, each with its instance, `Param` and `Sim`. -/
def listsOf (E : List (String × String × String)) : SweepLists :=
  { instances := E.map (·.1), vars := E.map (·.2.1), refs := E.map (·.2.2) }

/-- Sweep variables with no `Param` among the equation variables, any two having the same
`Param` exactly when they have the same `Sim`. -/
def Consistent (eqnvars : List String) (xs : List (String × String)) : Prop :=
  (∀ x ∈ xs, x.1 ∉ eqnvars) ∧ ∀ x ∈ xs, ∀ y ∈ xs, (x.1 = y.1 ↔ x.2 = y.2)

section Lookup

variable {eqnvars : List String}

theorem Consistent.mono {xs ys : List (String × String)} (h : Consistent eqnvars ys)
    (hs : xs ⊆ ys) : Consistent eqnvars xs :=
  ⟨fun x hx => h.1 x (hs hx), fun x hx y hy => h.2 x (hs hx) y (hs hy)⟩

theorem consistent_cons {x : String × String} {xs : List (String × String)}
    (h : Consistent eqnvars xs) :
    Consistent eqnvars (x :: xs) ↔
      x.1 ∉ eqnvars ∧ ∀ y ∈ xs, (x.1 = y.1 ↔ x.2 = y.2) := by
  refine ⟨fun hc => ⟨hc.1 x (List.mem_cons_self _ _),
    fun y hy => hc.2 x (List.mem_cons_self _ _) y (List.mem_cons_of_mem _ hy)⟩, ?_⟩
  rintro ⟨hx, hxy⟩
  refine ⟨List.forall_mem_cons.mpr ⟨hx, h.1⟩, fun a ha b hb => ?_⟩
  rcases List.mem_cons.mp ha with rfl | ha' <;> rcases List.mem_cons.mp hb with rfl | hb'
  · exact iff_of_true rfl rfl
  · exact hxy b hb'
  · exact eq_comm.trans ((hxy a ha').trans eq_comm)
  · exact h.2 a ha' b hb'

/-- Against consistent earlier sweeps, the two lookups find no conflict exactly when the new
sweep agrees with every earlier one. -/
theorem lookups_iff {x : String × String} :
    ∀ {E : List (String × String × String)},
      (∀ y ∈ E, ∀ z ∈ E, (y.2.1 = z.2.1 ↔ y.2.2 = z.2.2)) →
      (((∀ pos, strlistIndex (E.map (·.2.1)) x.1 = some pos →
          strlistGet (E.map (·.2.2)) pos = some x.2) ∧
        ∀ pos, strlistIndex (E.map (·.2.2)) x.2 = some pos →
          strlistGet (E.map (·.2.1)) pos = some x.1) ↔
        ∀ y ∈ E, (x.1 = y.2.1 ↔ x.2 = y.2.2))
  | [], _ => by simp [strlistIndex]
  | y :: E, hE => by
    have ih := @lookups_iff x E fun a ha b hb =>
      hE a (List.mem_cons_of_mem _ ha) b (List.mem_cons_of_mem _ hb)
    have hy : ∀ z ∈ E, (y.2.1 = z.2.1 ↔ y.2.2 = z.2.2) := fun z hz =>
      hE y (List.mem_cons_self _ _) z (List.mem_cons_of_mem _ hz)
    simp only [List.map_cons, strlistIndex, strlistGet, List.forall_mem_cons] at ih ⊢
    by_cases h1 : y.2.1 = x.1 <;> by_cases h2 : y.2.2 = x.2
    · rw [h1, h2] at hy
      simpa [h1, h2] using hy
    · simp [h1, h2, Ne.symm h2]
    · simp [h1, h2, Ne.symm h1]
    · simp only [h1, h2, if_false, Ne.symm h1, Ne.symm h2, false_iff, not_false_eq_true,
        true_and, Option.map_eq_some', forall_exists_index, and_imp]
      rw [← ih]
      constructor
      · rintro ⟨h3, h4⟩
        exact ⟨fun pos hp => by simpa using h3 (pos + 1) pos hp rfl,
          fun pos hp => by simpa using h4 (pos + 1) pos hp rfl⟩
      · rintro ⟨h3, h4⟩
        refine ⟨?_, ?_⟩ <;> rintro _ pos hp rfl
        · simpa using h3 pos hp
        · simpa using h4 pos hp

theorem sweepMessages_eq_nil {E : List (String × String × String)} {d : Definition}
    {para ref : String} :
    sweepMessages eqnvars (listsOf E) d para ref = [] ↔ para ∉ eqnvars ∧
      (∀ pos, strlistIndex (E.map (·.2.1)) para = some pos →
        strlistGet (E.map (·.2.2)) pos = some ref) ∧
      ∀ pos, strlistIndex (E.map (·.2.2)) ref = some pos →
        strlistGet (E.map (·.2.1)) pos = some para := by
  unfold sweepMessages listsOf
  simp only [List.append_eq_nil, and_assoc]
  refine and_congr (by split <;> simp_all) (and_congr ?_ ?_)
  · cases strlistIndex (E.map (·.2.1)) para <;> simp
  · cases strlistIndex (E.map (·.2.2)) ref <;> simp

/-- The loop never lowers its error count. -/
theorem le_foldl_checkSweepVariables :
    ∀ (l : List Definition) (acc : Nat × List VariableDiagnostic × SweepLists),
      acc.1 ≤ (l.foldl (checkSweepVariables eqnvars) acc).1
  | [], _ => le_rfl
  | d :: l, acc => by
    refine le_trans ?_ (le_foldl_checkSweepVariables l _)
    unfold checkSweepVariables
    split
    · exact le_rfl
    · exact Nat.le_add_right _ _

theorem checkSweepVariables_of_some {d : Definition} {para ref : String}
    (hs : sweepVariable d = some (para, ref)) (n : Nat) (log : List VariableDiagnostic)
    (E : List (String × String × String)) :
    checkSweepVariables eqnvars (n, log, listsOf E) d =
      (n + (sweepMessages eqnvars (listsOf E) d para ref).length,
        log ++ sweepMessages eqnvars (listsOf E) d para ref,
        listsOf ((d.instance, para, ref) :: E)) := by
  rw [checkSweepVariables, hs]; rfl

/-- From consistent sweeps `E` in the lists, the loop over `l` ends with no error exactly when
it started with none and the sweeps of `l` with those of `E` are consistent. -/
theorem foldl_checkSweepVariables :
    ∀ (l : List Definition) (n : Nat) (log : List VariableDiagnostic)
      (E : List (String × String × String)), Consistent eqnvars (E.map (·.2)) →
      ((l.foldl (checkSweepVariables eqnvars) (n, log, listsOf E)).1 = 0 ↔
        n = 0 ∧ Consistent eqnvars (l.filterMap sweepVariable ++ E.map (·.2)))
  | [], n, _, _, hE => by simp [hE]
  | d :: l, n, log, E, hE => by
    rw [List.foldl_cons]
    cases hs : sweepVariable d with
    | none =>
      rw [checkSweepVariables, hs, List.filterMap_cons_none hs]
      exact foldl_checkSweepVariables l n log E hE
    | some x =>
      obtain ⟨para, ref⟩ := x
      have hEE : ∀ y ∈ E, ∀ z ∈ E, (y.2.1 = z.2.1 ↔ y.2.2 = z.2.2) := fun y hy z hz =>
        hE.2 y.2 (List.mem_map_of_mem _ hy) z.2 (List.mem_map_of_mem _ hz)
      have hcons : Consistent eqnvars ((para, ref) :: E.map (·.2)) ↔
          sweepMessages eqnvars (listsOf E) d para ref = [] := by
        rw [consistent_cons hE, sweepMessages_eq_nil, List.forall_mem_map, ← lookups_iff hEE]
      have hperm : (l.filterMap sweepVariable ++ (para, ref) :: E.map (·.2)).Perm
          ((para, ref) :: (l.filterMap sweepVariable ++ E.map (·.2))) := List.perm_middle
      rw [checkSweepVariables_of_some hs, List.filterMap_cons_some hs]
      by_cases hc : Consistent eqnvars ((para, ref) :: E.map (·.2))
      · rw [hcons.mp hc, List.length_nil, Nat.add_zero,
          foldl_checkSweepVariables l n _ ((d.instance, para, ref) :: E) hc]
        exact and_congr_right fun _ => ⟨fun h => h.mono hperm.symm.subset,
          fun h => h.mono hperm.subset⟩
      · have hpos : 0 < (sweepMessages eqnvars (listsOf E) d para ref).length :=
          List.length_pos.mpr (mt hcons.mpr hc)
        refine iff_of_false (fun h0 => ?_) fun ⟨_, h⟩ => hc (h.mono ?_)
        · exact Nat.pos_iff_ne_zero.mp (Nat.lt_of_lt_of_le (Nat.lt_add_left n hpos)
            (le_foldl_checkSweepVariables l (_, _, _))) h0
        · exact List.cons_subset_cons _ (List.subset_append_right _ _)

end Lookup

/-- `netlist_checker_variables_intern` counts no error exactly when no sweep with a `Param` and a
`Sim` identifier has an equation variable as `Param`, and any two such sweeps have the same
`Param` if and only if they have the same `Sim`. -/
theorem variables_iff_consistent (eqnvars : List String) (root : List Definition) :
    (netlistCheckerVariablesIntern eqnvars root).1 = 0 ↔
      (∀ s ∈ root, ∀ x ∈ sweepVariable s, x.1 ∉ eqnvars) ∧
      ∀ s ∈ root, ∀ t ∈ root, ∀ x ∈ sweepVariable s, ∀ y ∈ sweepVariable t,
        (x.1 = y.1 ↔ x.2 = y.2) := by
  have h := @foldl_checkSweepVariables eqnvars root 0 [] [] ⟨nofun, nofun⟩
  simp only [List.map_nil, List.append_nil, true_and] at h
  rw [netlistCheckerVariablesIntern]
  refine h.trans ?_
  simp only [Consistent, List.mem_filterMap, Option.mem_def]
  constructor
  · rintro ⟨h1, h2⟩
    exact ⟨fun s hs x hx => h1 x ⟨s, hs, hx⟩,
      fun s hs t ht x hx y hy => h2 x ⟨s, hs, hx⟩ y ⟨t, ht, hy⟩⟩
  · rintro ⟨h1, h2⟩
    exact ⟨fun x ⟨s, hs, hx⟩ => h1 s hs x hx,
      fun x ⟨s, hs, hx⟩ y ⟨t, ht, hy⟩ => h2 s hs t ht x hx y hy⟩

end QucsNetlist
