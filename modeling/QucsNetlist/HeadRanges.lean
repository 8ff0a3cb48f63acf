import QucsNetlist.Scales

/-! # Accepted values are in range (`check_netlist.cpp:854-928`, `1490-1508`)

`netlist_checker_intern` folds the unit scale of the head value of every property of a line
and then tests the folded number against each value descriptor of the line's entry with the
property's key: the range `[l, h]`, and the integer test of `modf`. A test that fails counts an
error. No later write of the checker changes the number of a folded head or the key of a
property, and no write but the annotation of the line changes the entry it is annotated with.
So in a netlist `netlist_checker` accepts, the head number of every property passes the tests
of the entry its line is annotated with, at the top level and in every template body, after
the expansion has copied the bodies. The guarantee is about the head: the values after it are
tested before they are folded (`Ranges`).
-/

namespace QucsNetlist

/-- The head number of `p` passes the range and the integer test of every value descriptor of
entry `a` with the key of `p`. -/
def HeadInRange (a : Define) (p : Pair) : Prop :=
  ∀ prop ∈ a.required ++ a.optional, prop.key = p.key → prop.isVal = true →
    (∀ lo hi, prop.range = some (lo, hi) → ¬p.value.value < lo ∧ ¬p.value.value > hi) ∧
      (prop.isInt = true → hasFraction p.value.value = false)

theorem HeadInRange.of_kept {a : Define} {p p' : Pair} (h : HeadInRange a p)
    (hk : p'.key = p.key) (hv : p'.value.value = p.value.value) : HeadInRange a p' := by
  unfold HeadInRange at h ⊢
  rw [hk, hv]
  exact h

theorem headInRange_of_checkerValueInRange {inst : String} {a : Define} {pair : Pair}
    (h : (checkerValueInRange inst a pair).1 = true) : HeadInRange a pair := by
  simp only [checkerValueInRange, beq_iff_eq, Report.concat_errors_eq_zero, List.forall_mem_map]
    at h
  intro prop hp hk hv
  have h := h prop (List.mem_filter.mpr ⟨hp, by simp [hk]⟩)
  simp only [checkerValueInPropRange, hv, if_true, Report.append_errors, Nat.add_eq_zero,
    Report.when_errors_eq_zero] at h
  obtain ⟨⟨-, hr⟩, hi⟩ := h
  refine ⟨fun lo hi hlh => ?_, fun hint => by simpa [hint] using hi⟩
  simp only [hlh, Report.concat_errors_eq_zero, List.forall_mem_map, List.mem_cons,
    forall_eq_or_imp, Report.when_errors_eq_zero, Bool.or_eq_false_iff,
    decide_eq_false_iff_not] at hr
  exact hr.1

/-! ### The pair loop -/

/-- Pair `j` of line `i` has a folded head that passes the tests of entry `a`, or is not
there. -/
def RangedAt (a : Define) (l : List Definition) (i j : Nat) : Prop :=
  ∀ d ∈ l[i]?, ∀ p ∈ d.pairs[j]?, p.value.scale = none ∧ HeadInRange a p

theorem ScalesKept.rangedAt {a : Define} {l l' : List Definition} {i j : Nat}
    (h : ScalesKept l l') (hr : RangedAt a l i j) : RangedAt a l' i j := by
  intro d' hd' p' hp'
  obtain ⟨d, hd, hl⟩ := Pointwise.origin h hd'
  obtain ⟨p, hp, hk⟩ := Pointwise.origin hl hp'
  obtain ⟨hs, hin⟩ := hr d hd p hp
  obtain ⟨hs', hv⟩ := hk.folded hs
  exact ⟨hs', hin.of_kept hk.key hv⟩

theorem rangedAt_setValueAt {a : Define} {l : List Definition} {i j : Nat} {d : Definition}
    {q : Pair} (hd : l[i]? = some d) (hq : d.pairs[j]? = some q)
    (hr : HeadInRange a { q with value := checkerEvaluateScale q.value }) :
    RangedAt a (setValueAt l i j checkerEvaluateScale) i j := by
  intro d' hd' p' hp'
  obtain ⟨d0, q0, hd0, hq0, rfl⟩ := setValueAt_at hd' hp'
  rw [hd, Option.some.injEq] at hd0
  subst hd0
  rw [hq, Option.some.injEq] at hq0
  subst hq0
  exact ⟨checkerEvaluateScale_scale _, hr⟩

/-- A step of the pair loop that adds no error leaves the pair it checked folded and in
range. -/
theorem checkPair_ranged (a : Define) (i j : Nat) (st : Report × List Definition)
    (h0 : (checkPair a i j st).1.errors = st.1.errors) : RangedAt a (checkPair a i j st).2 i j := by
  rcases checkPair_list a i j st with ⟨he, hno⟩ | ⟨d, q, hd, hq, he⟩ <;> rw [he]
  · exact fun d hd p hp => by simp [hno d hd] at hp
  · exact (scalesKept_checkerResolveVariable _ i j).rangedAt (rangedAt_setValueAt hd hq
      (headInRange_of_checkerValueInRange ((checkPair_errors i j st).2 d q hd hq h0).2.1))

theorem pairLoop_ranged (a : Define) (i : Nat) : ∀ (k : Nat) (st : Report × List Definition),
    ((List.range k).foldl (fun st j => checkPair a i j st) st).1.errors ≤ st.1.errors →
      ∀ j < k, RangedAt a ((List.range k).foldl (fun st j => checkPair a i j st) st).2 i j
  | 0, _, _, _, h => absurd h (Nat.not_lt_zero _)
  | k + 1, st, hle, j, hj => by
    rw [List.range_succ, List.foldl_append, List.foldl_cons, List.foldl_nil] at hle ⊢
    have h1 := pairLoop_errors_le (a := a) i (List.range k) st
    have h2 := (checkPair_errors (a := a) i k
      ((List.range k).foldl (fun st j => checkPair a i j st) st)).1
    rcases Nat.lt_succ_iff_lt_or_eq.mp hj with hj | rfl
    · exact (checkPair_scales a i k _).1.rangedAt (pairLoop_ranged a i k st (by omega) j hj)
    · exact checkPair_ranged a i j _ (by omega)

/-! ### The line loop -/

/-- Every head of the line is folded and passes the tests of the entry the line is annotated
with. -/
def Definition.Ranged (d : Definition) : Prop :=
  ∀ a, d.define = some a → ∀ p ∈ d.pairs, p.value.scale = none ∧ HeadInRange a p

theorem Definition.Ranged.kept {d d' : Definition} (h : d.Ranged) (hl : LineKept d d')
    (hdef : d'.define = d.define) : d'.Ranged := by
  intro a ha p' hp'
  obtain ⟨j, hj⟩ := List.mem_iff_getElem?.mp hp'
  obtain ⟨p, hp, hk⟩ := Pointwise.origin hl hj
  obtain ⟨hs, hin⟩ := h a (hdef ▸ ha) p (List.getElem?_mem hp)
  obtain ⟨hs', hv⟩ := hk.folded hs
  exact ⟨hs', hin.of_kept hk.key hv⟩

theorem ranged_of_rangedAt {a : Define} {l : List Definition} {i : Nat} {e : Definition}
    (he : l[i]? = some e) (hdef : e.define = some a)
    (h : ∀ j < e.pairs.length, RangedAt a l i j) : e.Ranged := by
  intro a' ha' p hp
  rw [hdef, Option.some.injEq] at ha'
  subst ha'
  obtain ⟨j, hj⟩ := List.mem_iff_getElem?.mp hp
  exact h j (List.getElem?_eq_some_iff.mp hj).1 e he p hj

/-- The catalog checks of a line that count no error leave it ranged. -/
theorem checkLine_ranged (available : List Define) {root : List Definition} {i : Nat}
    {d : Definition} (hd : root[i]? = some d) (h0 : (checkLine available root i d).1.errors = 0) :
    ∀ e ∈ (checkLine available root i d).2[i]?, e.Ranged := by
  intro e he
  have hlen := ((checkLine_scales available hd).1.2 i d e hd he).1
  have hdef := congrArg (·[i]?) (checkLine_define available root i d)
  cases ha : checkerFindDefinition available d.type d.action with
  | none => simp only [checkLine, ha] at h0; exact absurd h0 Nat.one_ne_zero
  | some a =>
    simp only [List.getElem?_map, Option.mem_def.mp he, ha, Option.elim, List.getElem?_modify_eq,
      hd, Option.map_eq_map, Option.map_some', annotate, Option.some.injEq] at hdef
    unfold checkLine at h0 he
    rw [ha] at h0 he
    dsimp only at h0 he
    exact ranged_of_rangedAt he hdef fun j hj => pairLoop_ranged a i _ _ (by omega) j (hlen ▸ hj)

theorem checkDefinition_ranged (available : List Define) (st : Report × List Definition) (k : Nat)
    (h0 : (checkDefinition available st k).1.errors = 0) :
    ∀ e ∈ (checkDefinition available st k).2[k]?, e.Ranged := by
  cases hk : st.2[k]? with
  | none => simp [checkDefinition_of_none hk, hk]
  | some d =>
    have hr := checkLine_ranged available hk ((checkDefinition_errors available st k).2 d hk h0)
    intro e he
    unfold checkDefinition at he
    rw [hk] at he
    obtain ⟨e0, he0, hl⟩ := Pointwise.origin
      (scalesKept_countDefinitionFrom d.type d.instance 0 (checkLine available st.2 k d).2) he
    exact (hr e0 he0).kept hl (view_eq_of_map_eq (views_countDefinitionFrom
      (V := Definition.define) (fun _ => rfl) d.type d.instance 0 _) he0 he)

/-- The loop writes the annotation of line `k` only. -/
theorem checkDefinition_define_ne (available : List Define) (st : Report × List Definition)
    {i k : Nat} (hik : k ≠ i) :
    (checkDefinition available st k).2[i]?.map Definition.define = st.2[i]?.map Definition.define := by
  cases hk : st.2[k]? with
  | none => rw [checkDefinition_of_none hk]
  | some d =>
    have hdef := congrArg (·[i]?) (checkDefinition_define available hk)
    simp only [List.getElem?_map] at hdef
    rw [hdef]
    cases checkerFindDefinition available d.type d.action with
    | none => rfl
    | some a => simp only [Option.elim, List.getElem?_modify_ne _ _ hik]

/-- After `k` lines of the loop without error, each of the first `k` lines is ranged. -/
def LinesRanged (k : Nat) (st : Report × List Definition) : Prop :=
  st.1.errors = 0 → ∀ i < k, ∀ e ∈ st.2[i]?, e.Ranged

theorem LinesRanged.step {available : List Define} {k : Nat} {st : Report × List Definition}
    (h : LinesRanged k st) : LinesRanged (k + 1) (checkDefinition available st k) := by
  intro h0 i hi e he
  rcases Nat.lt_succ_iff_lt_or_eq.mp hi with hik | rfl
  · obtain ⟨e0, he0, hl⟩ := Pointwise.origin (checkDefinition_scales available st k).1 he
    have hdef := checkDefinition_define_ne available st (Nat.ne_of_gt hik)
    rw [Option.mem_def.mp he, he0, Option.map_some', Option.map_some', Option.some.injEq] at hdef
    have hle := checkDefinition_errors_le available st k
    exact (h (by omega) i hik e0 he0).kept hl hdef
  · exact checkDefinition_ranged available st i h0 e he

theorem linesRanged (available : List Define) (root : List Definition) :
    ∀ k, LinesRanged k ((List.range k).foldl (checkDefinition available) ({}, root))
  | 0 => fun _ _ hi => absurd hi (Nat.not_lt_zero _)
  | k + 1 => by
    rw [List.range_succ, List.foldl_append]
    exact (linesRanged available root k).step

/-! ### The passes -/

/-- What decides whether a line is ranged. -/
def Definition.rangeView (d : Definition) : Option Define × List Pair := (d.define, d.pairs)

theorem ranged_of_rangeView {d e : Definition} (h : e.rangeView = d.rangeView) (hd : d.Ranged) :
    e.Ranged := by
  simp only [Definition.rangeView, Prod.mk.injEq] at h
  exact hd.kept (LineKept.of_pairs h.2) h.1

/-- `netlist_checker_intern` without error leaves every line ranged. -/
theorem netlistCheckerIntern_ranged {available : List Define}
    {regOf : List Definition → List Definition} {fuel : Nat} {root : List Definition}
    {r : Report × Option Nat × List Definition}
    (h : netlistCheckerIntern available regOf fuel root = .ok r) (h0 : r.1.errors = 0) :
    ∀ e ∈ r.2.2, e.Ranged := by
  obtain ⟨hle, hlen, hv⟩ := netlistCheckerIntern_lines h
  refine forall_mem_of_map (fun _ _ => ranged_of_rangeView)
    (hv (V := Definition.rangeView) fun _ => rfl) fun e he => ?_
  obtain ⟨i, hi⟩ := List.mem_iff_getElem?.mp he
  exact linesRanged available root root.length (by omega) i
    (hlen ▸ (List.getElem?_eq_some_iff.mp hi).1) e hi

/-- The checks of `netlist_checker` without error leave every line ranged, at the top level and
in every template body. -/
theorem validated_values_ranged {available : List Define} {fuel : Nat} {g g' : Globals}
    {r : Report} (h : netlistCheckerValidate available fuel g = .ok (r, g')) (h0 : r.errors = 0) :
    (∀ d ∈ g'.definitionRoot, d.Ranged) ∧ ∀ T ∈ g'.subcircuitRoot, ∀ d ∈ T.sub, d.Ranged :=
  validated_forall (P := fun _ => Definition.Ranged) (fun _ _ _ => netlistCheckerIntern_ranged)
    (fun _ _ _ _ ha hl _ he =>
      let ⟨d, hd, hk, _, _, hdef⟩ := checkerValidateActions_origin ha he
      (hl d hd).kept hk hdef) h h0

/-- In the netlist `netlist_checker` accepts and flattens, and in every template body it keeps,
the head number of each property of a line passes the range and integer tests of every value
descriptor with its key in the entry the line is annotated with. -/
theorem accepted_values_in_range {available : List Define} {fuel : Nat} {g g' : Globals}
    {log : List Diagnostic} (h : netlistChecker available fuel g = .ok (0, g', log)) :
    (∀ d ∈ g'.definitionRoot, ∀ a, d.define = some a → ∀ p ∈ d.pairs, HeadInRange a p) ∧
      ∀ T ∈ g'.subcircuitRoot, ∀ d ∈ T.sub, ∀ a, d.define = some a →
        ∀ p ∈ d.pairs, HeadInRange a p := by
  obtain ⟨htop, hbod⟩ := accepted_of_validated (V := Definition.rangeView)
    (fun _ _ _ _ _ hp hd => by simp only [Definition.rangeView, hp, hd])
    (P := Definition.Ranged) (fun _ _ => ranged_of_rangeView)
    (fun _ _ hv h0 => validated_values_ranged hv h0) h
  exact ⟨fun d hd a ha p hp => (htop d hd a ha p hp).2,
    fun T hT d hd a ha p hp => (hbod T hT d hd a ha p hp).2⟩

theorem scaled_netlist_in_range :
    ∃ g' log, netlistChecker sampleCatalog 4 { definitionRoot := scaledNetlist } =
        .ok (0, g', log) ∧
      (∀ d ∈ g'.definitionRoot, ∀ a, d.define = some a → ∀ p ∈ d.pairs, HeadInRange a p) ∧
      ∀ T ∈ g'.subcircuitRoot, ∀ d ∈ T.sub, ∀ a, d.define = some a →
        ∀ p ∈ d.pairs, HeadInRange a p := by
  obtain ⟨g', log, h⟩ : ∃ g' log,
      netlistChecker sampleCatalog 4 { definitionRoot := scaledNetlist } = .ok (0, g', log) :=
    ⟨_, _, rfl⟩
  exact ⟨g', log, h, accepted_values_in_range h⟩

end QucsNetlist
