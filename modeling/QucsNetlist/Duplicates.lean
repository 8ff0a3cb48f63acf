import Mathlib.Data.List.Nodup
import QucsNetlist.Frame

/-! # The duplicate-definition check (`check_netlist.cpp:105-115`, `1512-1518`)

For each line, `netlist_checker_intern` counts the lines of the list with the line's type and
instance name (its key), marks every match after the first as a duplicate, and reports the key
when the count is not one and the line itself is not marked. A mark falls only on a line after
the first of its key, so the first line of a key is checked unmarked when the list started
unmarked: a key held by two lines is then reported at its first line, and a list checked without
error has pairwise distinct keys.
-/

namespace QucsNetlist

/-- The type and instance name of a line. -/
def Definition.key (d : Definition) : String × String := (d.type, d.instance)

theorem key_eq_iff {d : Definition} {t n : String} :
    d.key = (t, n) ↔ d.type = t ∧ d.instance = n := Prod.mk.inj_iff

/-! ### `checker_count_definition` -/

section Count

variable (type inst : String)

theorem countDefinitionFrom_fst : ∀ (c : Nat) (l : List Definition),
    (countDefinitionFrom type inst c l).1 = c + (l.map Definition.key).count (type, inst)
  | _, [] => rfl
  | c, d :: ds => by
    unfold countDefinitionFrom
    split
    · rename_i h
      rw [countDefinitionFrom_fst (c + 1) ds, List.map_cons, key_eq_iff.mpr h, List.count_cons_self]
      omega
    · rename_i h
      rw [countDefinitionFrom_fst c ds, List.map_cons,
        List.count_cons_of_ne (Ne.symm (mt key_eq_iff.mp h))]

/-- Line `j` after the count: marked when it matches and a match comes before it, the `c`
matches already seen included. -/
theorem countDefinitionFrom_getElem? : ∀ (c : Nat) (l : List Definition) (j : Nat),
    (countDefinitionFrom type inst c l).2[j]? = l[j]?.map fun d =>
      if d.key = (type, inst) ∧ 0 < c + ((l.take j).map Definition.key).count (type, inst)
      then { d with duplicate := true } else d
  | _, [], _ => rfl
  | c, d :: ds, 0 => by
    unfold countDefinitionFrom
    split <;> rename_i h <;> simp [key_eq_iff, h]
  | c, d :: ds, j + 1 => by
    unfold countDefinitionFrom
    split <;> rename_i h
    · have hc : ∀ n, c + 1 + n = c + (n + 1) := fun n => by omega
      simp only [List.getElem?_cons_succ, countDefinitionFrom_getElem? (c + 1) ds j,
        List.take_succ_cons, List.map_cons, key_eq_iff.mpr h, List.count_cons_self, hc]
    · simp only [List.getElem?_cons_succ, countDefinitionFrom_getElem? c ds j,
        List.take_succ_cons, List.map_cons, List.count_cons_of_ne (Ne.symm (mt key_eq_iff.mp h))]

end Count

/-! ### The loop of `netlist_checker_intern` -/

/-- A key held at two places is counted twice. -/
theorem two_le_count {α : Type} [BEq α] [LawfulBEq α] {l : List α} {a : α} {i j : Nat} (hij : i < j)
    (hi : l[i]? = some a) (hj : l[j]? = some a) : 2 ≤ l.count a := by
  have hlt : j < l.length := (List.getElem?_eq_some_iff.mp hj).1
  have hmem : a ∈ l.take j := List.mem_iff_getElem?.mpr ⟨i, by rw [List.getElem?_take_of_lt hij, hi]⟩
  have hdrop : l.drop j = a :: l.drop (j + 1) := by
    rw [List.drop_eq_getElem_cons hlt, (List.getElem?_eq_some_iff.mp hj).2]
  rw [← List.take_append_drop j l, List.count_append, hdrop, List.count_cons_self]
  have := List.count_pos_iff.mpr hmem
  omega

/-- A line with no match before it keeps its mark through the count. -/
theorem countDefinitionFrom_keep {type inst : String} {l : List Definition} {j : Nat}
    (h : ∀ x ∈ l[j]?, x.key = (type, inst) → (type, inst) ∉ (l.take j).map Definition.key) :
    (countDefinitionFrom type inst 0 l).2[j]? = l[j]? := by
  rw [countDefinitionFrom_getElem?]
  cases hx : l[j]? with
  | none => rfl
  | some x =>
    rw [Option.map_some', if_neg]
    rintro ⟨hk, hpos⟩
    exact h x hx hk (List.count_pos_iff.mp (by simpa using hpos))

/-- The first line of a key, `d` at `j`, keeps its mark through line `i`'s check. -/
theorem checkDefinition_first_mark (available : List Define) {root : List Definition}
    {st : Report × List Definition} (i : Nat)
    (hk : st.2.map Definition.key = root.map Definition.key) {j : Nat} {d : Definition}
    (hj : root[j]? = some d) (hfirst : d.key ∉ (root.take j).map Definition.key) :
    (checkDefinition available st i).2[j]?.map (·.duplicate) = st.2[j]?.map (·.duplicate) := by
  unfold checkDefinition
  split
  · rfl
  rename_i e _
  have hc := views_checkLine (V := fun d : Definition => (d.key, d.duplicate)) (fun _ _ _ => rfl)
    (fun _ _ => rfl) available st.2 i e
  have hck : (checkLine available st.2 i e).2.map Definition.key = root.map Definition.key := by
    rw [← hk]; simpa [List.map_map] using congrArg (List.map Prod.fst) hc
  show ((countDefinitionFrom e.type e.instance 0 _).2[j]?).map _ = _
  rw [countDefinitionFrom_keep fun x hx hxk => ?_]
  · simpa [List.map_map] using congrArg (fun l => (l.map Prod.snd)[j]?) hc
  · have : x.key = d.key := by simpa [Option.mem_def.mp hx, hj] using congrArg (·[j]?) hck
    rw [List.map_take, hck, ← List.map_take, ← hxk, this]
    exact hfirst

theorem checkDefinition_errors_le (available : List Define) (st : Report × List Definition)
    (i : Nat) : st.1.errors ≤ (checkDefinition available st i).1.errors := by
  unfold checkDefinition
  split
  · exact Nat.le_refl _
  simp only [Report.append_errors]
  omega

/-- The first line of a key held twice, checked unmarked, is reported. -/
theorem checkDefinition_reports (available : List Define) {root : List Definition}
    {st : Report × List Definition} (hk : st.2.map Definition.key = root.map Definition.key)
    {i j : Nat} {d : Definition} (hij : i < j) (hi : root[i]? = some d)
    (hj : (root.map Definition.key)[j]? = some d.key)
    (hfirst : d.key ∉ (root.take i).map Definition.key)
    (hmark : st.2[i]?.map (·.duplicate) = some false) :
    st.1.errors < (checkDefinition available st i).1.errors := by
  have hm := (checkDefinition_first_mark available i hk hi hfirst).trans hmark
  obtain ⟨e, he, -⟩ := Option.map_eq_some'.mp hmark
  have hek : e.key = d.key := by simpa [he, hi] using congrArg (·[i]?) hk
  have hck : (checkLine available st.2 i e).2.map Definition.key = root.map Definition.key :=
    (views_checkLine (V := Definition.key) (fun _ _ _ => rfl) (fun _ _ => rfl) available
      st.2 i e).trans hk
  have hcount : 2 ≤ ((checkLine available st.2 i e).2.map Definition.key).count e.key := by
    rw [hck, hek]; exact two_le_count hij (by simp [hi]) hj
  simp only [checkDefinition, he, checkerCountDefinition] at hm ⊢
  rw [hm]
  have h2 : 2 ≤ ((checkLine available st.2 i e).2.map Definition.key).count (e.type, e.instance) :=
    hcount
  simp only [Report.append_errors, Report.when_errors, countDefinitionFrom_fst]
  split
  · omega
  · rename_i hc
    simp only [Nat.zero_add, Option.getD_some, Bool.not_false, Bool.and_true, bne_iff_ne, ne_eq,
      Decidable.not_not] at hc
    omega

/-- What the loop of `netlist_checker_intern` has established after its first `k` lines of
`root`: the keys are those of `root`, the first line of each key has its mark from `root`, and
a key held twice whose first line is among the `k` and was unmarked has been reported. -/
structure Scanned (root : List Definition) (k : Nat) (st : Report × List Definition) : Prop where
  keys : st.2.map Definition.key = root.map Definition.key
  first : ∀ j d, root[j]? = some d → d.key ∉ (root.take j).map Definition.key →
    st.2[j]?.map (·.duplicate) = some d.duplicate
  reported : ∀ i j d, i < k → i < j → root[i]? = some d →
    (root.map Definition.key)[j]? = some d.key → d.key ∉ (root.take i).map Definition.key →
    d.duplicate = false → 0 < st.1.errors

section Scan

variable {available : List Define} {root : List Definition}

theorem Scanned.step {k : Nat} {st : Report × List Definition} (h : Scanned root k st) :
    Scanned root (k + 1) (checkDefinition available st k) where
  keys := (views_checkDefinition (V := Definition.key) (fun _ => rfl) (fun _ _ _ => rfl)
    (fun _ _ => rfl) available st k).trans h.keys
  first j d hj hf := (checkDefinition_first_mark available k h.keys hj hf).trans (h.first j d hj hf)
  reported i j d hik hij hi hj hf hd := by
    rcases Nat.lt_succ_iff_lt_or_eq.mp hik with hik | rfl
    · exact Nat.lt_of_lt_of_le (h.reported i j d hik hij hi hj hf hd)
        (checkDefinition_errors_le available st k)
    · exact Nat.lt_of_le_of_lt (Nat.zero_le _)
        (checkDefinition_reports available h.keys hij hi hj hf (by rw [h.first i d hi hf, hd]))

theorem scanned_lines (available : List Define) (root : List Definition) :
    ∀ k, Scanned root k ((List.range k).foldl (checkDefinition available) ({}, root))
  | 0 => ⟨rfl, fun _ d hj _ => by simp [hj], fun _ _ _ hi => absurd hi (Nat.not_lt_zero _)⟩
  | k + 1 => by
    rw [List.range_succ, List.foldl_append]
    exact (scanned_lines available root k).step

/-- A whole scan without error over a list that started unmarked leaves no key twice. -/
theorem Scanned.nodup {st : Report × List Definition} (h : Scanned root root.length st)
    (h0 : st.1.errors = 0) (hfresh : ∀ d ∈ root, d.duplicate = false) :
    (root.map Definition.key).Nodup := by
  rw [List.nodup_iff_getElem?_ne_getElem?]
  intro i
  induction i using Nat.strong_induction_on with
  | _ i ih =>
    intro j hij hj heq
    rw [List.length_map] at hj
    obtain ⟨d, hi⟩ : ∃ d, root[i]? = some d := ⟨root[i], List.getElem?_eq_getElem (by omega)⟩
    have hjk : (root.map Definition.key)[j]? = some d.key := by rw [← heq]; simp [hi]
    by_cases hf : d.key ∈ (root.take i).map Definition.key
    · obtain ⟨i', hi'⟩ := List.mem_iff_getElem?.mp hf
      rw [List.getElem?_map, List.getElem?_take] at hi'
      split at hi'
      · rename_i hlt
        exact ih i' hlt j (by omega) (by simpa using hj) (by rw [List.getElem?_map, hi', hjk])
      · cases hi'
    · exact absurd h0 (Nat.pos_iff_ne_zero.mp (h.reported i j d (by omega) hij hi hjk hf
        (hfresh d (List.getElem?_mem hi))))

end Scan

/-- A list `netlist_checker_intern` checked without error, given unmarked, has pairwise
distinct keys. -/
theorem netlistCheckerIntern_keys_nodup {available : List Define}
    {regOf : List Definition → List Definition} {fuel : Nat} {root : List Definition}
    {r : Report × Option Nat × List Definition}
    (h : netlistCheckerIntern available regOf fuel root = .ok r) (h0 : r.1.errors = 0)
    (hfresh : ∀ d ∈ root, d.duplicate = false) : (root.map Definition.key).Nodup := by
  unfold netlistCheckerIntern at h
  obtain ⟨subs, -, h⟩ := bind_eq_ok.mp h
  obtain ⟨nodesets, -, h⟩ := bind_eq_ok.mp h
  cases h
  simp only [Report.append_errors] at h0
  exact (scanned_lines available root root.length).nodup (by omega) hfresh

/-! ### The messages of each key -/

/-- The count and key a `found n definitions` message reports. -/
def Diagnostic.definitionsOf : Diagnostic → Option (Nat × String × String)
  | .definitions n type inst => some (n, type, inst)
  | _ => none

section Messages

/-! The catalog checks of a line log no `found n definitions` message. -/

theorem checkerValueInRange_definitions (inst : String) (a : Define) (pair : Pair) (n : Nat)
    (t i : String) : Diagnostic.definitions n t i ∉ (checkerValueInRange inst a pair).2 := by
  simp only [checkerValueInRange, Report.mem_concat_log, List.mem_map, not_exists, not_and]
  rintro _ ⟨p, -, rfl⟩
  unfold checkerValueInPropRange
  split
  · split <;> simp [Report.mem_concat_log]
  · simp

theorem checkerValidateSpecial_definitions (root : List Definition) (d : Definition) (ident : String) (n : Nat)
    (t i : String) : Diagnostic.definitions n t i ∉ (checkerValidateSpecial root d ident).2 :=
  foldl_induct (fun acc : Nat × List Diagnostic => Diagnostic.definitions n t i ∉ acc.2)
    (fun acc sp h => by dsimp only; split <;> [split <;> simp [h]; exact h]) _ _ (List.not_mem_nil _)

theorem checkerResolveVariable_definitions (root : List Definition) (k j : Nat) (n : Nat)
    (t i : String) : Diagnostic.definitions n t i ∉ (checkerResolveVariable root k j).2.2 := by
  unfold checkerResolveVariable
  split
  · exact List.not_mem_nil _
  split
  · exact List.not_mem_nil _
  dsimp only
  split_ifs <;> simp [checkerValidateSpecial_definitions]

theorem checkLine_definitions (available : List Define) (root : List Definition) (k : Nat) (d : Definition) (n : Nat)
    (t i : String) : Diagnostic.definitions n t i ∉ (checkLine available root k d).1.log := by
  unfold checkLine
  split
  · simp [Report.error]
  · refine foldl_induct (fun st : Report × List Definition => Diagnostic.definitions n t i ∉ st.1.log)
      (fun st j h => ?_) _ _ ?_
    · unfold checkPair
      split
      · exact h
      split
      · exact h
      simp [h, checkerValueInRange_definitions, checkerResolveVariable_definitions]
    · simp [checkNodes, checkOccurrences, Report.mem_concat_log]
      split <;> simp

theorem filterMap_definitionsOf_eq_nil {log : List Diagnostic}
    (h : ∀ n t i, Diagnostic.definitions n t i ∉ log) : log.filterMap Diagnostic.definitionsOf = [] :=
  List.filterMap_eq_nil_iff.mpr fun m hm => by
    cases m <;> first | rfl | exact absurd hm (h _ _ _)

end Messages

theorem checkDefinition_of_none {available : List Define} {st : Report × List Definition} {k : Nat}
    (hk : st.2[k]? = none) : checkDefinition available st k = st := by
  simp only [checkDefinition, hk]

/-- Line `k`'s check marks every line `j` of its key that follows a line of the key. -/
theorem checkDefinition_marks (available : List Define) {st : Report × List Definition} {k : Nat}
    {d : Definition} (hd : st.2[k]? = some d) (j : Nat) :
    (checkDefinition available st k).2[j]?.map (fun e => (e.key, e.duplicate)) =
      st.2[j]?.map fun e => (e.key,
        e.duplicate || decide (e.key = d.key ∧ d.key ∈ (st.2.take j).map Definition.key)) := by
  have hv := views_checkLine (V := fun e : Definition => (e.key, e.duplicate)) (fun _ _ _ => rfl)
    (fun _ _ => rfl) available st.2 k d
  have hj := congrArg (·[j]?) hv
  have hkeys : ((checkLine available st.2 k d).2.take j).map Definition.key =
      (st.2.take j).map Definition.key := by
    have := congrArg (fun l => (l.map Prod.fst).take j) hv
    simpa only [List.map_map, List.map_take] using this
  simp only [List.getElem?_map] at hj
  simp only [checkDefinition, hd, checkerCountDefinition, countDefinitionFrom_getElem?, Option.map_map,
    Nat.zero_add, hkeys, List.count_pos_iff]
  cases hs : st.2[j]? with
  | none => rw [hs] at hj; simpa using hj
  | some e =>
    rw [hs] at hj
    obtain ⟨e', he', hee⟩ := Option.map_eq_some'.mp hj
    obtain ⟨hk, hdup⟩ := Prod.mk.inj hee
    simp only [he', Option.map_some', Function.comp, Option.some.injEq, ← hk, ← hdup]
    split <;> rename_i h
    · exact Prod.ext rfl ((Bool.or_true _).symm.trans (congrArg _ (decide_eq_true h).symm))
    · exact Prod.ext rfl ((Bool.or_false _).symm.trans (congrArg _ (decide_eq_false h).symm))

/-- Line `k`'s check adds the report of its catalog checks and one `found n definitions` error,
for its key, when the key is held by other than one line and line `k` is neither marked nor after
a line of its key. -/
theorem checkDefinition_report (available : List Define) {st : Report × List Definition}
    {k : Nat} {d : Definition} (hd : st.2[k]? = some d) :
    (checkDefinition available st k).1 = st.1 ++ (checkLine available st.2 k d).1 ++
      Report.when (decide ((st.2.map Definition.key).count d.key ≠ 1 ∧ d.duplicate = false ∧
          d.key ∉ (st.2.take k).map Definition.key))
        (.definitions ((st.2.map Definition.key).count d.key) d.type d.instance) := by
  have hm := congrArg (Option.map Prod.snd) (checkDefinition_marks available hd k)
  have hkeys := views_checkLine (V := Definition.key) (fun _ _ _ => rfl) (fun _ _ => rfl)
    available st.2 k d
  simp only [checkDefinition, hd, checkerCountDefinition, Option.map_map, Function.comp_def] at hm ⊢
  rw [hm]
  simp only [countDefinitionFrom_fst, hkeys, Option.map_some', Option.getD_some, Nat.zero_add]
  congr 2
  rw [Bool.eq_iff_iff]
  simp only [true_and, Bool.and_eq_true, bne_iff_ne, Bool.not_eq_true', Bool.or_eq_false_iff,
    decide_eq_false_iff_not, decide_eq_true_eq]
  rfl

/-- Line `k`'s check adds one `found n definitions` message, for its key, when the key is held
by other than one line and line `k` is neither marked nor after a line of its key. -/
theorem checkDefinition_definitions (available : List Define) {st : Report × List Definition}
    {k : Nat} {d : Definition} (hd : st.2[k]? = some d) :
    (checkDefinition available st k).1.log.filterMap Diagnostic.definitionsOf =
      st.1.log.filterMap Diagnostic.definitionsOf ++
        if (st.2.map Definition.key).count d.key ≠ 1 ∧ d.duplicate = false ∧
          d.key ∉ (st.2.take k).map Definition.key
        then [((st.2.map Definition.key).count d.key, d.key)] else [] := by
  rw [checkDefinition_report available hd]
  simp only [Report.append_log, List.filterMap_append,
    filterMap_definitionsOf_eq_nil (checkLine_definitions available st.2 k d), List.append_nil,
    Report.when_log, decide_eq_true_eq]
  split <;> rfl

/-- Line `k`'s check adds the errors of its catalog checks and one more when its key is
reported. -/
theorem checkDefinition_errors_eq (available : List Define) {st : Report × List Definition}
    {k : Nat} {d : Definition} (hd : st.2[k]? = some d) :
    (checkDefinition available st k).1.errors =
      st.1.errors + (checkLine available st.2 k d).1.errors +
        if (st.2.map Definition.key).count d.key ≠ 1 ∧ d.duplicate = false ∧
          d.key ∉ (st.2.take k).map Definition.key then 1 else 0 := by
  rw [checkDefinition_report available hd]
  simp only [Report.append_errors, Report.when_errors, decide_eq_true_eq]

/-- What the line loop has done after the first `k` lines of `L`, given `L` unmarked: the keys
are those of `L`; a line is marked when a line before it and one of the first `k` lines have
its key; and a key has one `found n definitions` message, with its count `n`, once one of the
first `k` lines has it and `n ≥ 2`, and no message otherwise. -/
structure Tallied (L : List Definition) (k : Nat) (st : Report × List Definition) : Prop where
  keys : st.2.map Definition.key = L.map Definition.key
  marks : ∀ j d, L[j]? = some d → st.2[j]?.map (·.duplicate) =
    some (decide (d.key ∈ (L.map Definition.key).take j ∧ d.key ∈ (L.map Definition.key).take k))
  reports : ∀ key, (st.1.log.filterMap Diagnostic.definitionsOf).filter (·.2 = key) =
    if key ∈ (L.map Definition.key).take k ∧ 2 ≤ (L.map Definition.key).count key
    then [((L.map Definition.key).count key, key)] else []

section Tally

variable {available : List Define} {L : List Definition}

theorem getElem?_of_keys {l : List Definition} (h : l.map Definition.key = L.map Definition.key)
    {j : Nat} : l[j]?.map Definition.key = L[j]?.map Definition.key := by
  simpa only [List.getElem?_map] using congrArg (·[j]?) h

theorem Tallied.step {k : Nat} {st : Report × List Definition} (h : Tallied L k st) :
    Tallied L (k + 1) (checkDefinition available st k) := by
  cases hk : st.2[k]? with
  | none =>
    rw [checkDefinition_of_none hk]
    have hL : L[k]? = none := by simpa [hk] using (getElem?_of_keys h.keys (j := k)).symm
    have ht : (L.map Definition.key).take (k + 1) = (L.map Definition.key).take k := by
      rw [List.take_succ, List.getElem?_map, hL, Option.map_none', Option.toList_none, List.append_nil]
    exact ⟨h.keys, by simpa only [ht] using h.marks, by simpa only [ht] using h.reports⟩
  | some d =>
    obtain ⟨d0, hd0, hdk⟩ := Option.map_eq_some'.mp
      ((getElem?_of_keys h.keys (j := k)).symm.trans (by rw [hk]; rfl))
    have ht : (L.map Definition.key).take (k + 1) = (L.map Definition.key).take k ++ [d.key] := by
      rw [List.take_succ, List.getElem?_map, hd0, Option.map_some', hdk]; rfl
    have htake : ∀ j, (st.2.take j).map Definition.key = (L.map Definition.key).take j := fun j => by
      rw [List.map_take, h.keys]
    refine ⟨(views_checkDefinition (V := Definition.key) (fun _ => rfl) (fun _ _ _ => rfl)
      (fun _ _ => rfl) available st k).trans h.keys, fun j dj hj => ?_, fun key => ?_⟩
    · have hm := congrArg (Option.map Prod.snd) (checkDefinition_marks available hk j)
      obtain ⟨e, he, hek⟩ := Option.map_eq_some'.mp
        ((getElem?_of_keys h.keys (j := j)).trans (by rw [hj]; rfl))
      have hed := h.marks j dj hj
      rw [he, Option.map_some', Option.some.injEq] at hed
      simp only [Option.map_map, Function.comp_def, he, Option.map_some'] at hm ⊢
      rw [hm, htake, ht, hed, hek]
      by_cases hc : dj.key = d.key <;> simp [hc]; tauto
    · have hdup := h.marks k d0 hd0
      simp only [hk, Option.map_some', Option.some.injEq, and_self, hdk] at hdup
      have hpos : 0 < (L.map Definition.key).count d.key :=
        List.count_pos_iff.mpr (hdk ▸ List.mem_map_of_mem _ (List.getElem?_mem hd0))
      rw [checkDefinition_definitions available hk, List.filter_append, h.reports key, h.keys, htake,
        ht, hdup]
      by_cases hkey : key = d.key
      · rw [hkey]
        by_cases hmem : d.key ∈ (L.map Definition.key).take k
        · simp [hmem]
        · have hcnt : (L.map Definition.key).count d.key ≠ 1 ↔ 2 ≤ (L.map Definition.key).count d.key := by
            omega
          simp [hmem, hcnt]
      · rw [List.filter_eq_nil_iff.mpr (by split <;> simp [Ne.symm hkey]), List.append_nil]
        simp [hkey]

/-- Over the loop's state after `k` lines, line `k`'s check adds the errors of its catalog
checks and one more exactly when it is the first line of a key held by two lines or more. -/
theorem Tallied.errors_step {k : Nat} {st : Report × List Definition} (h : Tallied L k st)
    {d : Definition} (hd : L[k]? = some d) : ∃ e, st.2[k]? = some e ∧
      (checkDefinition available st k).1.errors =
        st.1.errors + (checkLine available st.2 k e).1.errors +
          if d.key ∉ (L.map Definition.key).take k ∧ 2 ≤ (L.map Definition.key).count d.key
          then 1 else 0 := by
  obtain ⟨e, he, hek⟩ := Option.map_eq_some'.mp
    ((getElem?_of_keys h.keys (j := k)).trans (by rw [hd]; rfl))
  have hdup := h.marks k d hd
  simp only [he, Option.map_some', Option.some.injEq, and_self] at hdup
  have hpos : 0 < (L.map Definition.key).count d.key :=
    List.count_pos_iff.mpr (List.mem_map_of_mem _ (List.getElem?_mem hd))
  refine ⟨e, he, ?_⟩
  rw [checkDefinition_errors_eq available he, h.keys, List.map_take, h.keys, hek, hdup]
  have hcnt : (L.map Definition.key).count d.key ≠ 1 ↔ 2 ≤ (L.map Definition.key).count d.key := by
    omega
  by_cases hmem : d.key ∈ (L.map Definition.key).take k <;> simp [hmem, hcnt]

theorem tallied_lines (available : List Define) (L : List Definition)
    (hfresh : ∀ d ∈ L, d.duplicate = false) :
    ∀ k, Tallied L k ((List.range k).foldl (checkDefinition available) ({}, L))
  | 0 => ⟨rfl, fun _ d hj => by simp [hj, hfresh d (List.getElem?_mem hj)], fun _ => by simp⟩
  | k + 1 => by
    rw [List.range_succ, List.foldl_append]
    exact (tallied_lines available L hfresh k).step

end Tally

/-- The line loop of `netlist_checker_intern`, over a list with no line marked, reports each key
held by `n ≥ 2` lines in exactly one `found n definitions` message and a key of one line in
none; it keeps the keys of the lines and leaves marked exactly the lines that follow a line
of their key; and at each line it counts the errors of the line's catalog checks and one more
exactly when the line is the first of a key held by two lines or more, so one error for each
such key. -/
theorem duplicate_check_exact (available : List Define) (L : List Definition)
    (hfresh : ∀ d ∈ L, d.duplicate = false) :
    (∀ key : String × String,
      (((List.range L.length).foldl (checkDefinition available) ({}, L)).1.log.filterMap
        Diagnostic.definitionsOf).filter (·.2 = key) =
        if 2 ≤ (L.map Definition.key).count key then [((L.map Definition.key).count key, key)]
        else []) ∧
    ((List.range L.length).foldl (checkDefinition available) ({}, L)).2.map Definition.key =
      L.map Definition.key ∧
    (∀ j d, L[j]? = some d →
      ((List.range L.length).foldl (checkDefinition available) ({}, L)).2[j]?.map (·.duplicate) =
        some (decide (d.key ∈ (L.map Definition.key).take j))) ∧
    ∀ k d, L[k]? = some d → ∃ e,
      ((List.range k).foldl (checkDefinition available) ({}, L)).2[k]? = some e ∧
      ((List.range (k + 1)).foldl (checkDefinition available) ({}, L)).1.errors =
        ((List.range k).foldl (checkDefinition available) ({}, L)).1.errors +
          (checkLine available ((List.range k).foldl (checkDefinition available) ({}, L)).2 k
            e).1.errors +
          if d.key ∉ (L.map Definition.key).take k ∧ 2 ≤ (L.map Definition.key).count d.key
          then 1 else 0 := by
  have h := tallied_lines available L hfresh L.length
  have ht : (L.map Definition.key).take L.length = L.map Definition.key :=
    List.take_of_length_le (by rw [List.length_map])
  refine ⟨fun key => ?_, h.keys, fun j d hj => ?_, fun k d hd => ?_⟩
  · rw [h.reports key, ht]
    by_cases h2 : 2 ≤ (L.map Definition.key).count key
    · rw [if_pos ⟨List.count_pos_iff.mp (by omega), h2⟩, if_pos h2]
    · rw [if_neg fun hc => h2 hc.2, if_neg h2]
  · rw [h.marks j d hj, ht]
    simp [List.mem_map_of_mem Definition.key (List.getElem?_mem hj)]
  · rw [List.range_succ, List.foldl_append]
    exact (tallied_lines available L hfresh k).errors_step hd

/-- Three lines named `R1`, two of them resistors, and a capacitor `C1`, interleaved. -/
def interleavedLines : List Definition :=
  [{ type := "R", «instance» := "R1", sub := [] }, { type := "C", «instance» := "R1", sub := [] },
   { type := "R", «instance» := "R1", sub := [] }, { type := "C", «instance» := "C1", sub := [] }]

theorem interleaved_duplicates_exact :
    (∀ d ∈ interleavedLines, d.duplicate = false) ∧
    (∀ key : String × String,
      (((List.range interleavedLines.length).foldl (checkDefinition sampleCatalog)
        ({}, interleavedLines)).1.log.filterMap Diagnostic.definitionsOf).filter (·.2 = key) =
        if 2 ≤ (interleavedLines.map Definition.key).count key
        then [((interleavedLines.map Definition.key).count key, key)] else []) ∧
    ((List.range interleavedLines.length).foldl (checkDefinition sampleCatalog)
      ({}, interleavedLines)).2.map Definition.key = interleavedLines.map Definition.key ∧
    (∀ j d, interleavedLines[j]? = some d →
      ((List.range interleavedLines.length).foldl (checkDefinition sampleCatalog)
        ({}, interleavedLines)).2[j]?.map (·.duplicate) =
        some (decide (d.key ∈ (interleavedLines.map Definition.key).take j))) ∧
    ∀ k d, interleavedLines[k]? = some d → ∃ e,
      ((List.range k).foldl (checkDefinition sampleCatalog) ({}, interleavedLines)).2[k]? =
          some e ∧
      ((List.range (k + 1)).foldl (checkDefinition sampleCatalog) ({}, interleavedLines)).1.errors =
        ((List.range k).foldl (checkDefinition sampleCatalog) ({}, interleavedLines)).1.errors +
          (checkLine sampleCatalog
            ((List.range k).foldl (checkDefinition sampleCatalog) ({}, interleavedLines)).2 k
            e).1.errors +
          if d.key ∉ (interleavedLines.map Definition.key).take k ∧
            2 ≤ (interleavedLines.map Definition.key).count d.key
          then 1 else 0 :=
  ⟨by decide, duplicate_check_exact sampleCatalog interleavedLines (by decide)⟩

/-! ### Over the pass -/

mutual
/-- `P` holds of a line and of every line of its body, at any depth. -/
def EveryLine (P : Definition → Prop) : Definition → Prop
  | d@{ sub := s, .. } => P d ∧ EveryLines P s

/-- `P` holds of every line of a list, at any depth. -/
def EveryLines (P : Definition → Prop) : List Definition → Prop
  | [] => True
  | d :: ds => EveryLine P d ∧ EveryLines P ds
end

mutual
theorem buildSubcircuit_every {P : Definition → Prop}
    (hP : ∀ (d : Definition) (b : List Definition), P d → P { d with sub := b }) :
    ∀ (d : Definition) (reg : List Definition),
      EveryLine P d → (∀ T ∈ reg, P T ∧ ∀ e ∈ T.sub, P e) →
        ∀ T ∈ buildSubcircuit d reg, P T ∧ ∀ e ∈ T.sub, P e
  | d@{ sub := s, .. }, reg, ⟨hd, hs⟩, hreg => by
    have ih := checkerBuildSubcircuits_every hP s reg hs hreg
    intro T hT
    rcases List.mem_cons.mp hT with rfl | hT
    · exact ⟨hP _ _ hd, ih.1⟩
    · exact ih.2 T hT

/-- `checker_build_subcircuits` moves lines and never changes one: what holds of every line of
the input, at any depth, holds of every line of the list it returns and of every template and
body line of the registry. -/
theorem checkerBuildSubcircuits_every {P : Definition → Prop}
    (hP : ∀ (d : Definition) (b : List Definition), P d → P { d with sub := b }) :
    ∀ (l reg : List Definition),
      EveryLines P l → (∀ T ∈ reg, P T ∧ ∀ e ∈ T.sub, P e) →
        (∀ d ∈ (checkerBuildSubcircuits l reg).1, P d) ∧
          ∀ T ∈ (checkerBuildSubcircuits l reg).2, P T ∧ ∀ e ∈ T.sub, P e
  | [], _, _, hreg => ⟨fun _ h => absurd h (List.not_mem_nil _), hreg⟩
  | d :: ds, reg, ⟨hd, hds⟩, hreg => by
    unfold checkerBuildSubcircuits
    split
    · exact checkerBuildSubcircuits_every hP ds _ hds (buildSubcircuit_every hP d reg hd hreg)
    · have ih := checkerBuildSubcircuits_every hP ds reg hds hreg
      refine ⟨fun d' hd' => ?_, ih.2⟩
      rcases List.mem_cons.mp hd' with rfl | hd'
      · cases d'; exact hd.1
      · exact ih.1 d' hd'
end

theorem keys_of_shapes {l l' : List Definition}
    (h : l.map Definition.shape = l'.map Definition.shape) :
    l.map Definition.key = l'.map Definition.key := by
  have := congrArg (List.map fun s => (s.1, s.2.1)) h
  simpa only [List.map_map] using this

/-- A body check writes only its own template. -/
theorem checkBody_getElem?_ne {available : List Define} {fuel : Nat}
    {st st' : Report × Option Nat × List Definition} {k j : Nat}
    (h : checkBody available fuel st k = .ok st') (hj : k ≠ j) : st'.2.2[j]? = st.2.2[j]? := by
  unfold checkBody at h
  split at h
  · cases h; rfl
  obtain ⟨r, -, h⟩ := bind_eq_ok.mp h
  cases h
  exact List.getElem?_modify_ne _ _ hj

end QucsNetlist
