import QucsNetlist.Frame

/-! # Every error counted is logged (`check_netlist.cpp`, each `errors++` and `return ++errors`)

Each check of `netlist_checker` that counts an error logs a message with it, and the checks
that return their count apart from the report (`checker_validate_sub_cycles`,
`checker_validate_subcircuits`) or as a flag (`checker_value_in_range`,
`checker_resolve_variable`) log at least one message with every error they return. So the
count a run returns is never larger than the number of messages it logged, and a run that
returns `-1` always says why. The converse does not hold: `checker_validate_special` logs
messages that `checker_resolve_variable` does not count when another domain resolves the
identifier.
-/

namespace QucsNetlist

/-- A report counts no error it has not logged a message for. -/
def Report.Logged (r : Report) : Prop := r.errors ≤ r.log.length

namespace Report

theorem logged_empty : Logged {} := Nat.le_refl 0

theorem logged_error (m : Diagnostic) : Logged (.error m) := Nat.le_refl 1

theorem logged_when (c : Bool) (m : Diagnostic) : Logged (.when c m) := by
  cases c
  · exact logged_empty
  · exact logged_error m

theorem Logged.append {a b : Report} (ha : Logged a) (hb : Logged b) : Logged (a ++ b) := by
  unfold Logged at *
  simp only [append_errors, append_log, List.length_append]
  omega

theorem logged_concat : ∀ {rs : List Report}, (∀ r ∈ rs, Logged r) → Logged (concat rs)
  | [], _ => logged_empty
  | r :: _, h => (h r (List.mem_cons_self _ _)).append
      (logged_concat fun s hs => h s (List.mem_cons_of_mem _ hs))

theorem logged_concat_map {α : Type} {f : α → Report} (hf : ∀ x, Logged (f x)) (l : List α) :
    Logged (concat (l.map f)) :=
  logged_concat fun _ hr => by
    obtain ⟨x, -, rfl⟩ := List.mem_map.mp hr
    exact hf x

/-- One error for a check that failed, with the messages it logged: logged when a failure
always comes with a message. -/
theorem logged_flag {ok : Bool} {log : List Diagnostic} (h : ok = false → log ≠ []) :
    Logged ⟨if ok then 0 else 1, log⟩ := by
  cases ok
  · exact List.length_pos.mpr (h rfl)
  · exact Nat.zero_le _

end Report

/-! ### One line -/

theorem checkerValueInPropRange_logged (inst : String) (a : Define) (pair : Pair)
    (prop : Property) : (checkerValueInPropRange inst a pair prop).Logged := by
  unfold checkerValueInPropRange
  split
  · refine ((Report.logged_when _ _).append ?_).append (Report.logged_when _ _)
    split
    · exact Report.logged_concat_map (fun _ => Report.logged_when _ _) _
    · exact Report.logged_empty
  · exact Report.logged_when _ _

/-- `checker_value_in_range` fails only with a message. -/
theorem checkerValueInRange_flag (inst : String) (a : Define) (pair : Pair) :
    (checkerValueInRange inst a pair).1 = false → (checkerValueInRange inst a pair).2 ≠ [] := by
  have hl := Report.logged_concat_map (checkerValueInPropRange_logged inst a pair)
    ((a.required ++ a.optional).filter (·.key == pair.key))
  intro h hnil
  simp only [checkerValueInRange, beq_eq_false_iff_ne] at h hnil
  rw [Report.Logged, hnil, List.length_nil] at hl
  omega

/-- `checker_resolve_variable` fails only with the message that no domain holds the
identifier. -/
theorem checkerResolveVariable_flag (root : List Definition) (i j : Nat) :
    (checkerResolveVariable root i j).1 = false → (checkerResolveVariable root i j).2.2 ≠ [] := by
  unfold checkerResolveVariable
  split
  · simp
  split
  · simp
  dsimp only
  simp only [apply_ite Prod.fst, apply_ite Prod.snd]
  split_ifs <;> simp

section Line

variable {st : Report × List Definition} (hst : st.1.Logged)
include hst

theorem checkPair_logged (a : Define) (i j : Nat) : (checkPair a i j st).1.Logged := by
  unfold checkPair
  split
  · exact hst
  split
  · exact hst
  exact ((hst.append (Report.logged_when _ _)).append
    (Report.logged_flag (checkerValueInRange_flag _ _ _))).append
      (Report.logged_flag (checkerResolveVariable_flag _ _ _))

omit hst in
theorem checkLine_logged (available : List Define) (root : List Definition) (i : Nat)
    (d : Definition) : (checkLine available root i d).1.Logged := by
  unfold checkLine
  split
  · exact Report.logged_error _
  rename_i a _
  have hnodes : (checkNodes a d (checkerCountNodes d)).Logged := by
    unfold checkNodes
    split <;> exact Report.logged_when _ _
  have hocc : (checkOccurrences a d).Logged :=
    (Report.logged_concat_map (fun _ => Report.logged_when _ _) _).append
      (Report.logged_concat_map (fun _ => Report.logged_when _ _) _)
  exact foldl_induct (fun st : Report × List Definition => st.1.Logged)
    (fun _ j h => checkPair_logged h a i j) _ _ (hnodes.append hocc)

theorem checkDefinition_logged (available : List Define) (i : Nat) :
    (checkDefinition available st i).1.Logged := by
  unfold checkDefinition
  split
  · exact hst
  · exact (hst.append (checkLine_logged _ _ _ _)).append (Report.logged_when _ _)

theorem validateStrip_logged (i : Nat) : (validateStrip st i).1.Logged := by
  unfold validateStrip
  split
  · exact hst
  split
  · split
    · exact hst.append (Report.logged_error _)
    · exact hst.append (Report.logged_when _ _)
  · exact hst

end Line

theorem checkerValidateStrips_logged (root : List Definition) :
    (checkerValidateStrips root).1.Logged :=
  foldl_induct (fun st : Report × List Definition => st.1.Logged)
    (fun _ i h => validateStrip_logged h i) _ _ Report.logged_empty

/-! ### The subcircuit checks, which return their count apart -/

section Subcircuits

variable {reg : List Definition}

theorem subCyclesLoop_logged
    {recurse : Definition → String → List String →
      Except Fault (Nat × List String × List Diagnostic)}
    (hrec : ∀ sub t deps x, recurse sub t deps = .ok x → x.1 ≤ x.2.2.length)
    {ds : List Definition} {deps checked : List String} {errors : Nat} {log : List Diagnostic}
    {x : Nat × List String × List Diagnostic} (he : errors ≤ log.length)
    (h : subCyclesLoop reg recurse ds deps checked errors log = .ok x) : x.1 ≤ x.2.2.length := by
  induction ds generalizing deps checked errors log with
  | nil => simp only [subCyclesLoop, except_pure, Except.ok.injEq] at h; rw [← h]; exact he
  | cons d ds ih =>
    simp only [subCyclesLoop] at h
    split at h
    · exact ih he h
    split at h
    · exact ih he h
    split at h
    · cases h
    obtain ⟨⟨e, d', l'⟩, hr, h⟩ := bind_eq_ok.mp h
    have hx := hrec _ _ _ _ hr
    dsimp only at hx h
    split at h
    · exact ih (by rw [List.length_append]; omega) h
    · exact ih (by rw [List.length_append]; omega) h

theorem checkerValidateSubCycles_logged :
    ∀ {fuel : Nat} {root : Definition} {type inst : String} {deps : List String}
      {x : Nat × List String × List Diagnostic},
      checkerValidateSubCycles reg fuel root type inst deps = .ok x → x.1 ≤ x.2.2.length
  | 0, _, _, _, _, _, h => by cases h
  | _ + 1, _, _, _, _, _, h => by
    simp only [checkerValidateSubCycles] at h
    split at h
    · cases h; exact Nat.le_refl 1
    · exact subCyclesLoop_logged (fun _ _ _ _ hr => checkerValidateSubCycles_logged hr)
        (Nat.zero_le _) h

theorem validateSubcircuit_logged {fuel : Nat} {d : Definition}
    {x : Nat × Option Nat × List Diagnostic} (h : validateSubcircuit reg fuel d = .ok x) :
    x.1 ≤ x.2.2.length := by
  unfold validateSubcircuit at h
  split at h
  · split at h
    · cases h; exact Nat.le_refl 1
    split at h
    · cases h; exact Nat.le_refl 1
    obtain ⟨⟨err, deps, log⟩, hs, h⟩ := bind_eq_ok.mp h
    cases h
    have := checkerValidateSubCycles_logged hs
    dsimp only at this ⊢
    split <;> simp only [List.length_append, List.length_singleton, List.length_nil] <;> omega
  · cases h; exact Nat.le_refl 0

theorem checkerValidateSubcircuits_logged {fuel : Nat} :
    ∀ {l : List Definition} {x : Nat × Option Nat × List Diagnostic},
      checkerValidateSubcircuits reg fuel l = .ok x → x.1 ≤ x.2.2.length
  | [], _, h => by cases h; exact Nat.le_refl 0
  | _ :: _, _, h => by
    obtain ⟨here, hh, h⟩ := bind_eq_ok.mp h
    obtain ⟨rest, hr, h⟩ := bind_eq_ok.mp h
    cases h
    have h1 := validateSubcircuit_logged hh
    have h2 := checkerValidateSubcircuits_logged hr
    simp only [List.length_append]
    omega

end Subcircuits

/-! ### One list, and the lists of a run -/

theorem validateNodeset_logged {st st' : Report × List Definition} {i : Nat}
    (hst : st.1.Logged) (h : validateNodeset st i = .ok st') : st'.1.Logged := by
  unfold validateNodeset at h
  split at h
  · cases h; exact hst
  split at h
  · obtain ⟨count, -, h⟩ := bind_eq_ok.mp h
    cases h
    exact (hst.append (Report.logged_when _ _)).append (Report.logged_when _ _)
  · cases h; exact hst

theorem netlistCheckerIntern_logged {available : List Define}
    {regOf : List Definition → List Definition} {fuel : Nat} {root : List Definition}
    {r : Report × Option Nat × List Definition}
    (h : netlistCheckerIntern available regOf fuel root = .ok r) : r.1.Logged := by
  unfold netlistCheckerIntern at h
  obtain ⟨subs, hs, h⟩ := bind_eq_ok.mp h
  obtain ⟨nodesets, hn, h⟩ := bind_eq_ok.mp h
  cases h
  have hlines := foldl_induct (fun st : Report × List Definition => st.1.Logged)
    (fun _ i h => checkDefinition_logged h available i) (List.range root.length) ({}, root)
    Report.logged_empty
  have hsubs : Report.Logged ⟨subs.1, subs.2.2⟩ := checkerValidateSubcircuits_logged hs
  exact ((hlines.append (checkerValidateStrips_logged _)).append hsubs).append
    (foldlM_induct (fun st : Report × List Definition => st.1.Logged)
      (fun _ _ _ h => validateNodeset_logged h) Report.logged_empty hn)

theorem checkBodies_logged {available : List Define} {fuel : Nat} {reg : List Definition}
    {r : Report × Option Nat × List Definition} (h : checkBodies available fuel reg = .ok r) :
    r.1.Logged := by
  refine foldlM_induct (fun st : Report × Option Nat × List Definition => st.1.Logged)
    (fun st k st' hst hs => ?_) Report.logged_empty h
  unfold checkBody at hs
  split at hs
  · cases hs; exact hst
  · obtain ⟨r', hr', hs⟩ := bind_eq_ok.mp hs
    cases hs
    exact hst.append (netlistCheckerIntern_logged hr')

theorem checkLists_logged {available : List Define} {fuel : Nat} {root reg : List Definition}
    {r : Report × Option Nat × List Definition × List Definition}
    (h : checkLists available fuel root reg = .ok r) : r.1.Logged := by
  unfold checkLists at h
  obtain ⟨top, htop, h⟩ := bind_eq_ok.mp h
  obtain ⟨defs, hdefs, h⟩ := bind_eq_ok.mp h
  obtain ⟨bodies, hbodies, h⟩ := bind_eq_ok.mp h
  cases h
  exact ((netlistCheckerIntern_logged htop).append (netlistCheckerIntern_logged hdefs)).append
    (checkBodies_logged hbodies)

/-! ### The actions -/

theorem checkAnalyses_logged {reg root : List Definition} {cycles fuel : Nat} {a : Report}
    (h : checkAnalyses reg cycles fuel root = .ok a) : a.Logged := by
  unfold checkAnalyses at h
  split at h
  · cases h; exact Report.logged_error _
  · obtain ⟨c, -, h⟩ := bind_eq_ok.mp h
    cases h
    exact ((Report.logged_when _ _).append (Report.logged_when _ _)).append
      (Report.logged_when _ _)

theorem paraCyclesLoop_logged {inst : String}
    {recurse : String → List String → Except Fault Report}
    (hrec : ∀ v deps r, recurse v deps = .ok r → r.Logged) :
    ∀ {l : List Definition} {deps : List String} {r : Report},
      paraCyclesLoop inst recurse l deps = .ok r → r.Logged
  | [], _, _, h => by cases h; exact Report.logged_empty
  | _ :: _, _, _, h => by
    simp only [paraCyclesLoop] at h
    split at h
    · split at h
      · cases h; exact Report.logged_error _
      split at h
      · exact hrec _ _ _ h
      · exact paraCyclesLoop_logged hrec h
    · exact paraCyclesLoop_logged hrec h

theorem checkerValidateParaCycles_logged {root : List Definition} :
    ∀ {fuel : Nat} {inst : String} {deps : List String} {r : Report},
      checkerValidateParaCycles root fuel inst deps = .ok r → r.Logged
  | 0, _, _, _, h => by cases h
  | _ + 1, _, _, _, h =>
    paraCyclesLoop_logged (fun _ _ _ hr => checkerValidateParaCycles_logged hr) h

theorem checkerValidatePara_logged {root : List Definition} {fuel : Nat} {r : Report}
    (h : checkerValidatePara root fuel = .ok r) : r.Logged := by
  unfold checkerValidatePara at h
  obtain ⟨rs, hrs, h⟩ := bind_eq_ok.mp h
  cases h
  refine Report.logged_concat fun r hr => ?_
  obtain ⟨d, -, hd⟩ := mem_of_mapM hrs r hr
  unfold validatePara at hd
  split at hd
  · split at hd
    · cases hd; exact Report.logged_error _
    · obtain ⟨c, hc, hd⟩ := bind_eq_ok.mp hd
      cases hd
      exact ((Report.logged_when _ _).append (Report.logged_when _ _)).append
        (checkerValidateParaCycles_logged hc)
  · cases hd; exact Report.logged_empty

theorem checkerValidatePorts_logged (root : List Definition) :
    (checkerValidatePorts root).Logged := by
  refine Report.logged_concat_map (fun ⟨k, d⟩ => ?_) _
  dsimp only
  split
  · exact Report.logged_empty
  · refine Report.logged_concat_map (fun ⟨m, port⟩ => ?_) _
    dsimp only
    split
    · exact Report.logged_when _ _
    · exact Report.logged_empty

theorem sweepProperty_logged (d : Definition) (key : String) (required : Bool) :
    (sweepProperty d key required).Logged := by
  unfold sweepProperty
  split
  · exact Report.logged_error _
  · exact Report.logged_error _
  · exact Report.logged_empty

/-- Every branch of a line of `checker_validate_lists` appends logged reports or fails. -/
theorem validateList_logged {st st' : Report × List Definition} {i : Nat}
    (hst : st.1.Logged) (h : validateList st i = .ok st') : st'.1.Logged := by
  unfold validateList at h
  repeat' split at h
  all_goals cases h
  all_goals repeat (first | exact hst | exact sweepProperty_logged _ _ _ |
    exact Report.logged_when _ _ | apply Report.Logged.append)

theorem checkerValidateActions_logged {reg : List Definition} {cycles fuel : Nat}
    {root : List Definition} {r : Report × List Definition}
    (h : checkerValidateActions reg cycles fuel root = .ok r) : r.1.Logged := by
  unfold checkerValidateActions at h
  obtain ⟨an, han, h⟩ := bind_eq_ok.mp h
  obtain ⟨para, hpara, h⟩ := bind_eq_ok.mp h
  obtain ⟨lists, hl, h⟩ := bind_eq_ok.mp h
  cases h
  exact (((checkAnalyses_logged han).append (checkerValidatePara_logged hpara)).append
    (checkerValidatePorts_logged root)).append
      (foldlM_induct (fun st : Report × List Definition => st.1.Logged)
        (fun _ _ _ h => validateList_logged h) Report.logged_empty hl)

/-! ### The run -/

/-- Every error the checks of `netlist_checker` count comes with a message: the run logs at
least as many messages as the errors it counts, so a run that returns `-1` has logged one. -/
theorem counted_errors_logged {available : List Define} {fuel : Nat} {g g' : Globals}
    {r : Report} (h : netlistCheckerValidate available fuel g = .ok (r, g')) :
    r.errors ≤ r.log.length := by
  unfold netlistCheckerValidate at h
  obtain ⟨⟨r0, stored, root, reg⟩, hl, h⟩ := bind_eq_ok.mp h
  obtain ⟨actions, ha, h⟩ := bind_eq_ok.mp h
  cases h
  exact (checkLists_logged hl).append (checkerValidateActions_logged ha)

/-- A resistor without its value, with a stray property naming no variable, and no action. -/
def faultyNetlist : List Definition :=
  [{ type := "R", «instance» := "R1", nodes := [namedNode "a", namedNode "gnd"],
     pairs := [identPair "X" "y"], sub := [] }]

theorem faulty_netlist_logged :
    ∃ r g', netlistCheckerValidate sampleCatalog 3 { definitionRoot := faultyNetlist } =
        .ok (r, g') ∧ 0 < r.errors ∧ r.errors ≤ r.log.length := by
  obtain ⟨r, g', h, hpos⟩ : ∃ r g', netlistCheckerValidate sampleCatalog 3
      { definitionRoot := faultyNetlist } = .ok (r, g') ∧ 0 < r.errors := ⟨_, _, rfl, by decide⟩
  exact ⟨r, g', h, hpos, counted_errors_logged h⟩

end QucsNetlist
