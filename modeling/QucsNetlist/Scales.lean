import QucsNetlist.Conform

/-! # Unit scales are folded (`check_netlist.cpp:331-378`, `1491-1493`, `588-593`)

`netlist_checker_intern` folds the unit scale of the head value of every property of a line
whose type has an entry: `checker_evaluate_scale` multiplies the number by the scale and drops
the scale. Every later write of the checker keeps a dropped scale dropped: the sweep tags and
substrate marks of `checker_resolve_variable`, the duplicate marks, and the `Values` fold of
`checker_validate_lists`, which folds again. So the lists `netlist_checker` accepts hold no head
value with a scale left to fold. The checks rewrite nothing but values and annotations: every
line keeps the type, name, action flag, nodes and property keys it was parsed with.
-/

namespace QucsNetlist

/-! ### Relations kept place for place -/

section Pointwise

variable {α : Type} {R : α → α → Prop}

/-- `l'` has the length of `l` and relates to it by `R` place for place. -/
def Pointwise (R : α → α → Prop) (l l' : List α) : Prop :=
  l'.length = l.length ∧ ∀ (k : Nat) a a', l[k]? = some a → l'[k]? = some a' → R a a'

theorem Pointwise.refl (hR : ∀ a, R a a) (l : List α) : Pointwise R l l :=
  ⟨rfl, fun _ _ _ h h' => by rw [h] at h'; cases h'; exact hR _⟩

theorem Pointwise.trans (hR : ∀ a b c, R a b → R b c → R a c) {l l' l'' : List α}
    (h : Pointwise R l l') (h' : Pointwise R l' l'') : Pointwise R l l'' := by
  refine ⟨h'.1.trans h.1, fun k a a'' ha ha'' => ?_⟩
  have hk : k < l'.length := h.1 ▸ (List.getElem?_eq_some_iff.mp ha).1
  exact hR _ _ _ (h.2 k a _ ha (List.getElem?_eq_getElem hk))
    (h'.2 k _ a'' (List.getElem?_eq_getElem hk) ha'')

/-- Each element of `l'` stands related to the one at its place in `l`. -/
theorem Pointwise.origin {l l' : List α} (h : Pointwise R l l') {k : Nat} {a' : α}
    (ha' : l'[k]? = some a') : ∃ a, l[k]? = some a ∧ R a a' := by
  have hk : k < l.length := h.1 ▸ (List.getElem?_eq_some_iff.mp ha').1
  exact ⟨_, List.getElem?_eq_getElem hk, h.2 k _ a' (List.getElem?_eq_getElem hk) ha'⟩

/-- Two lists with the same views have them place for place. -/
theorem view_eq_of_map_eq {β : Type} {V : α → β} {l l' : List α} (h : l'.map V = l.map V)
    {k : Nat} {a a' : α} (ha : l[k]? = some a) (ha' : l'[k]? = some a') : V a' = V a := by
  simpa [ha, ha'] using congrArg (·[k]?) h

/-- A list with the views of another has an element at each of its places, of the same view. -/
theorem exists_view_of_map_eq {β : Type} {V : α → β} {l l' : List α} (h : l'.map V = l.map V)
    {k : Nat} {a : α} (ha : l[k]? = some a) : ∃ a', l'[k]? = some a' ∧ V a' = V a := by
  have hk := congrArg (·[k]?) h
  simp only [List.getElem?_map, ha, Option.map_some'] at hk
  obtain ⟨a', ha', hv⟩ := Option.map_eq_some'.mp hk
  exact ⟨a', ha', hv⟩

theorem Pointwise.cons {a a' : α} {l l' : List α} (ha : R a a') (h : Pointwise R l l') :
    Pointwise R (a :: l) (a' :: l') := by
  refine ⟨by simp [h.1], fun k b b' hb hb' => ?_⟩
  cases k with
  | zero =>
    simp only [List.getElem?_cons_zero, Option.some.injEq] at hb hb'
    subst hb hb'
    exact ha
  | succ k => exact h.2 k b b' (by simpa using hb) (by simpa using hb')

theorem pointwise_modify (hR : ∀ a, R a a) {g : α → α} (hg : ∀ a, R a (g a)) (i : Nat)
    (l : List α) : Pointwise R l (l.modify g i) := by
  refine ⟨List.length_modify .., fun k a a' ha ha' => ?_⟩
  rw [List.getElem?_modify, ha] at ha'
  by_cases hik : i = k <;> simp only [hik, if_true, if_false, Option.map_eq_map,
    Option.map_some', Option.some.injEq] at ha' <;> subst ha'
  exacts [hg a, hR a]

theorem pointwise_modifyFirst (hR : ∀ a, R a a) {p : α → Bool} {g : α → α}
    (hg : ∀ a, p a = true → R a (g a)) : ∀ l : List α, Pointwise R l (modifyFirst p g l)
  | [] => Pointwise.refl hR []
  | a :: l => by
    unfold modifyFirst
    split
    · exact (Pointwise.refl hR l).cons (hg a ‹_›)
    · exact (pointwise_modifyFirst hR hg l).cons (hR a)

end Pointwise

/-! ### Folded heads stay folded -/

/-- What the later writes of the checker keep of a property: its key and the identifier of its
head, a head without scale with its number, and the variable tag of an identifier. -/
structure PairKept (p p' : Pair) : Prop where
  key : p'.key = p.key
  ident : p'.value.ident = p.value.ident
  folded : p.value.scale = none → p'.value.scale = none ∧ p'.value.value = p.value.value
  tagged : p.value.ident.isSome → p.value.var = .double → p'.value.var = .double

/-- Pair for pair, the keys and folded heads of `d` are kept in `d'`. -/
def LineKept (d d' : Definition) : Prop := Pointwise PairKept d.pairs d'.pairs

/-- Line for line, the keys and folded heads of `l` are kept in `l'`. -/
def ScalesKept (l l' : List Definition) : Prop := Pointwise LineKept l l'

/-- Every head value of the line has its scale folded. -/
def Definition.Folded (d : Definition) : Prop := ∀ p ∈ d.pairs, p.value.scale = none

theorem PairKept.refl (p : Pair) : PairKept p p := ⟨rfl, rfl, fun h => ⟨h, rfl⟩, fun _ h => h⟩

theorem PairKept.trans {p p' p'' : Pair} (h : PairKept p p') (h' : PairKept p' p'') :
    PairKept p p'' where
  key := h'.key.trans h.key
  ident := h'.ident.trans h.ident
  folded hs :=
    ⟨(h'.folded (h.folded hs).1).1, (h'.folded (h.folded hs).1).2.trans (h.folded hs).2⟩
  tagged hi hv := h'.tagged (h.ident ▸ hi) (h.tagged hi hv)

theorem LineKept.refl (d : Definition) : LineKept d d := Pointwise.refl PairKept.refl _

theorem LineKept.trans {d d' d'' : Definition} (h : LineKept d d') (h' : LineKept d' d'') :
    LineKept d d'' := Pointwise.trans (R := PairKept) (fun _ _ _ => PairKept.trans) h h'

theorem LineKept.of_pairs {d d' : Definition} (h : d'.pairs = d.pairs) : LineKept d d' := by
  unfold LineKept; rw [h]; exact LineKept.refl d

theorem ScalesKept.refl (l : List Definition) : ScalesKept l l := Pointwise.refl LineKept.refl _

theorem ScalesKept.trans {l l' l'' : List Definition} (h : ScalesKept l l')
    (h' : ScalesKept l' l'') : ScalesKept l l'' :=
  Pointwise.trans (R := LineKept) (fun _ _ _ => LineKept.trans) h h'

theorem LineKept.folded {d d' : Definition} (h : LineKept d d') (hd : d.Folded) : d'.Folded := by
  intro p' hp'
  obtain ⟨j, hj⟩ := List.mem_iff_getElem?.mp hp'
  obtain ⟨p, hp, hk⟩ := Pointwise.origin h hj
  exact (hk.folded (hd p (List.getElem?_mem hp))).1

/-- A write of head values that keeps the identifier, leaves a head without scale as it is and
adds no scale, and keeps the tag of an identifier tagged as a variable. -/
structure KeptWrite (f : Value → Value) : Prop where
  ident : ∀ v, (f v).ident = v.ident
  folded : ∀ v, v.scale = none → (f v).scale = none ∧ (f v).value = v.value
  tagged : ∀ v, v.ident.isSome → v.var = .double → (f v).var = .double

theorem KeptWrite.pairKept {f : Value → Value} (hf : KeptWrite f) (p : Pair) :
    PairKept p { p with value := f p.value } :=
  ⟨rfl, hf.ident _, hf.folded _, hf.tagged _⟩

theorem scalesKept_setValueAt {f : Value → Value} (hf : KeptWrite f) (l : List Definition)
    (i j : Nat) : ScalesKept l (setValueAt l i j f) := by
  unfold setValueAt
  refine pointwise_modify LineKept.refl (fun d => ?_) i l
  exact pointwise_modify (R := PairKept) PairKept.refl hf.pairKept j d.pairs

theorem scalesKept_modifyVariable {f : Value → Value} (hf : KeptWrite f) (l : List Definition)
    (type key ident : String) : ScalesKept l (modifyVariable l type key ident f) := by
  unfold modifyVariable
  refine pointwise_modifyFirst LineKept.refl (fun d _ => ?_) l
  exact pointwise_modifyFirst (R := PairKept) PairKept.refl (fun p _ => hf.pairKept p) d.pairs

theorem checkerEvaluateScale_scale (v : Value) : (checkerEvaluateScale v).scale = none := by
  unfold checkerEvaluateScale; split <;> simp_all

theorem checkerEvaluateScale_var (v : Value) : (checkerEvaluateScale v).var = v.var := by
  unfold checkerEvaluateScale; split <;> rfl

theorem keptWrite_checkerEvaluateScale : KeptWrite checkerEvaluateScale where
  ident := checkerEvaluateScale_ident
  folded v h := by simp [checkerEvaluateScale, h]
  tagged v _ h := (checkerEvaluateScale_var v).trans h

theorem scalesKept_checkerResolveVariable (l : List Definition) (i j : Nat) :
    ScalesKept l (checkerResolveVariable l i j).2.1 := by
  unfold checkerResolveVariable
  split
  · exact ScalesKept.refl l
  split
  · exact ScalesKept.refl l
  have htag : KeptWrite fun v => { v with var := .double } :=
    ⟨fun _ => rfl, fun _ h => ⟨h, rfl⟩, fun _ _ _ => rfl⟩
  have hsub : KeptWrite fun v => { v with subst := true } :=
    ⟨fun _ => rfl, fun _ h => ⟨h, rfl⟩, fun _ _ h => h⟩
  rename_i ident _
  have hsweep := (scalesKept_modifyVariable htag l "SW" "Param" ident).trans
    (scalesKept_setValueAt htag _ i j)
  -- the sweep tag and the substrate mark, each written or not
  dsimp only
  split <;> split <;> split
  all_goals first
    | exact ScalesKept.refl l
    | exact hsweep
    | exact scalesKept_setValueAt hsub l i j
    | exact hsweep.trans (scalesKept_setValueAt hsub _ i j)

/-- Pair `j` of line `i` has its head folded, or is not there. -/
def FoldedAt (l : List Definition) (i j : Nat) : Prop :=
  ∀ d ∈ l[i]?, ∀ p ∈ d.pairs[j]?, p.value.scale = none

theorem ScalesKept.foldedAt {l l' : List Definition} {i j : Nat} (h : ScalesKept l l')
    (hf : FoldedAt l i j) : FoldedAt l' i j := by
  intro d' hd' p' hp'
  obtain ⟨d, hd, hl⟩ := Pointwise.origin h hd'
  obtain ⟨p, hp, hk⟩ := Pointwise.origin hl hp'
  exact (hk.folded (hf d hd p hp)).1

theorem folded_of_foldedAt {l : List Definition} {i : Nat} {e : Definition}
    (he : l[i]? = some e) (h : ∀ j < e.pairs.length, FoldedAt l i j) : e.Folded := by
  intro p hp
  obtain ⟨j, hj⟩ := List.mem_iff_getElem?.mp hp
  exact h j (List.getElem?_eq_some_iff.mp hj).1 e he p hj

/-- The pair `setValueAt` leaves at the place it writes is the pair there, rewritten. -/
theorem setValueAt_at {l : List Definition} {i j : Nat} {f : Value → Value} {d' : Definition}
    {p' : Pair} (hd' : (setValueAt l i j f)[i]? = some d') (hp' : d'.pairs[j]? = some p') :
    ∃ d p, l[i]? = some d ∧ d.pairs[j]? = some p ∧ p' = { p with value := f p.value } := by
  simp only [setValueAt, List.getElem?_modify_eq, Option.map_eq_map, Option.map_eq_some'] at hd'
  obtain ⟨d, hd, rfl⟩ := hd'
  simp only [List.getElem?_modify_eq, Option.map_eq_map, Option.map_eq_some'] at hp'
  obtain ⟨p, hp, rfl⟩ := hp'
  exact ⟨d, p, hd, hp, rfl⟩

theorem foldedAt_setValueAt (l : List Definition) (i j : Nat) :
    FoldedAt (setValueAt l i j checkerEvaluateScale) i j := fun _ hd _ hp =>
  let ⟨_, _, _, _, he⟩ := setValueAt_at hd hp
  he ▸ checkerEvaluateScale_scale _

/-! ### The line loop of `netlist_checker_intern` -/

/-- What a step of the pair loop writes: nothing when line `i` has no pair `j`, and otherwise
the folded value of the pair, then what `checker_resolve_variable` writes. -/
theorem checkPair_list (a : Define) (i j : Nat) (st : Report × List Definition) :
    (checkPair a i j st).2 = st.2 ∧ (∀ d ∈ st.2[i]?, d.pairs[j]? = none) ∨
      ∃ d q, st.2[i]? = some d ∧ d.pairs[j]? = some q ∧ (checkPair a i j st).2 =
        (checkerResolveVariable (setValueAt st.2 i j checkerEvaluateScale) i j).2.1 := by
  unfold checkPair
  cases hd : st.2[i]? with
  | none => exact .inl ⟨rfl, by simp⟩
  | some d =>
    dsimp only
    cases hq : d.pairs[j]? with
    | none => exact .inl ⟨rfl, by simpa using hq⟩
    | some q => exact .inr ⟨d, q, rfl, hq, rfl⟩

/-- Pair `j` of line `i` leaves its check folded, and no other head is unfolded. -/
theorem checkPair_scales (a : Define) (i j : Nat) (st : Report × List Definition) :
    ScalesKept st.2 (checkPair a i j st).2 ∧ FoldedAt (checkPair a i j st).2 i j := by
  rcases checkPair_list a i j st with ⟨he, hno⟩ | ⟨-, -, -, -, he⟩ <;> rw [he]
  · exact ⟨ScalesKept.refl _, fun d hd p hp => by simp [hno d hd] at hp⟩
  · have hres := scalesKept_checkerResolveVariable (setValueAt st.2 i j checkerEvaluateScale) i j
    exact ⟨(scalesKept_setValueAt keptWrite_checkerEvaluateScale _ i j).trans hres,
      hres.foldedAt (foldedAt_setValueAt st.2 i j)⟩

theorem pairLoop_scales (a : Define) (i : Nat) : ∀ (k : Nat) (st : Report × List Definition),
    ScalesKept st.2 ((List.range k).foldl (fun st j => checkPair a i j st) st).2 ∧
      ∀ j < k, FoldedAt ((List.range k).foldl (fun st j => checkPair a i j st) st).2 i j
  | 0, st => ⟨ScalesKept.refl _, fun _ h => absurd h (Nat.not_lt_zero _)⟩
  | k + 1, st => by
    rw [List.range_succ, List.foldl_append, List.foldl_cons, List.foldl_nil]
    obtain ⟨h1, h2⟩ := pairLoop_scales a i k st
    obtain ⟨h3, h4⟩ := checkPair_scales a i k ((List.range k).foldl (fun st j => checkPair a i j st) st)
    refine ⟨h1.trans h3, fun j hj => ?_⟩
    rcases Nat.lt_succ_iff_lt_or_eq.mp hj with hj | rfl
    exacts [h3.foldedAt (h2 j hj), h4]

theorem scalesKept_annotate (a : Define) (l : List Definition) (i : Nat) :
    ScalesKept l (l.modify (annotate a) i) :=
  pointwise_modify (g := annotate a) LineKept.refl (fun _ => LineKept.of_pairs rfl) i l

/-- The catalog checks of a line with an entry fold every head of the line. -/
theorem checkLine_scales (available : List Define) {root : List Definition} {i : Nat}
    {d : Definition} (hd : root[i]? = some d) :
    ScalesKept root (checkLine available root i d).2 ∧
      ((checkerFindDefinition available d.type d.action).isSome →
        ∀ e ∈ (checkLine available root i d).2[i]?, e.Folded) := by
  unfold checkLine
  cases ha : checkerFindDefinition available d.type d.action with
  | none => exact ⟨ScalesKept.refl _, fun h => absurd h (by simp)⟩
  | some a =>
    dsimp only
    have hann := scalesKept_annotate a root i
    obtain ⟨h1, h2⟩ := pairLoop_scales a i d.pairs.length
      (checkNodes a d (checkerCountNodes d) ++ checkOccurrences a d, root.modify (annotate a) i)
    have hk := hann.trans h1
    refine ⟨hk, fun _ e he => folded_of_foldedAt he fun j hj => h2 j ?_⟩
    have hl : LineKept d e := hk.2 i d e hd he
    exact hl.1 ▸ hj

theorem scalesKept_countDefinitionFrom (type inst : String) :
    ∀ (c : Nat) (l : List Definition), ScalesKept l (countDefinitionFrom type inst c l).2
  | _, [] => ScalesKept.refl []
  | c, d :: ds => by
    unfold countDefinitionFrom
    split
    · exact (scalesKept_countDefinitionFrom type inst _ ds).cons
        (by split <;> exact LineKept.of_pairs rfl)
    · exact (scalesKept_countDefinitionFrom type inst c ds).cons (LineKept.refl d)

theorem checkDefinition_scales (available : List Define) (st : Report × List Definition) (k : Nat) :
    ScalesKept st.2 (checkDefinition available st k).2 ∧
      ∀ d, st.2[k]? = some d → (checkerFindDefinition available d.type d.action).isSome →
        ∀ e ∈ (checkDefinition available st k).2[k]?, e.Folded := by
  unfold checkDefinition
  cases hk : st.2[k]? with
  | none => exact ⟨ScalesKept.refl _, fun _ h => by cases h⟩
  | some d =>
    dsimp only
    obtain ⟨h1, h2⟩ := checkLine_scales available hk
    have hc := scalesKept_countDefinitionFrom d.type d.instance 0 (checkLine available st.2 k d).2
    refine ⟨h1.trans hc, fun d' hd' ha e he => ?_⟩
    cases hd'
    obtain ⟨e0, he0, hl⟩ := Pointwise.origin hc he
    exact hl.folded (h2 ha e0 he0)

/-- After `k` lines of the loop, each of the first `k` lines whose type has an entry has every
head folded. -/
def LinesFolded (available : List Define) (k : Nat) (st : Report × List Definition) : Prop :=
  ∀ i < k, ∀ e ∈ st.2[i]?, (checkerFindDefinition available e.type e.action).isSome → e.Folded

theorem LinesFolded.step {available : List Define} {k : Nat} {st : Report × List Definition}
    (h : LinesFolded available k st) :
    LinesFolded available (k + 1) (checkDefinition available st k) := by
  intro i hi e he hfound
  have he' : (checkDefinition available st k).2[i]? = some e := he
  obtain ⟨hkept, hnew⟩ := checkDefinition_scales available st k
  have hform := congrArg (·[i]?) (forms_checkDefinition available st k)
  simp only [List.getElem?_map, he', Option.map_some'] at hform
  obtain ⟨e0, he0, hee⟩ := Option.map_eq_some'.mp hform.symm
  have hta : e.type = e0.type ∧ e.action = e0.action :=
    ⟨congrArg Form.type hee.symm, congrArg Form.action hee.symm⟩
  rcases Nat.lt_succ_iff_lt_or_eq.mp hi with hik | rfl
  · exact (hkept.2 i e0 e he0 he').folded (h i hik e0 he0 (by rwa [← hta.1, ← hta.2]))
  · exact hnew e0 he0 (by rwa [← hta.1, ← hta.2]) e he

theorem forall_mem_of_map {α β : Type} {V : α → β} {P : α → Prop}
    (hP : ∀ a b, V b = V a → P a → P b) {l l' : List α} (h : l'.map V = l.map V)
    (hl : ∀ a ∈ l, P a) : ∀ a ∈ l', P a := fun _ ha =>
  let ⟨a0, ha0, hv⟩ := List.mem_map.mp (h ▸ List.mem_map_of_mem V ha)
  hP a0 _ hv.symm (hl a0 ha0)

/-- What decides whether a line must be folded, and whether it is. -/
def Definition.foldView (d : Definition) : String × Bool × List Pair := (d.type, d.action, d.pairs)

theorem validateList_scales {st st' : Report × List Definition} {i : Nat}
    (h : validateList st i = .ok st') : ScalesKept st.2 st'.2 := by
  unfold validateList at h
  repeat' split at h
  all_goals first
    | (cases h; exact ScalesKept.refl _)
    | cases h
  refine pointwise_modify LineKept.refl (fun d => ?_) i _
  refine pointwise_modifyFirst (R := PairKept) PairKept.refl (fun p hp => ?_) d.pairs
  -- the fold reaches a numeric `Values` only, whose head carries no identifier
  have hnum : p.value.ident = none := (by simpa using hp : _ ∧ _).2
  exact ⟨rfl, checkerEvaluateScale_ident _, fun h => ⟨checkerEvaluateScale_scale _,
    (keptWrite_checkerEvaluateScale.folded { p.value with var := .vector } h).2⟩,
    fun hi => absurd hnum (Option.isSome_iff_ne_none.mp hi)⟩

theorem scalesKept_checkerValidateLists {root : List Definition} {r : Report × List Definition}
    (h : checkerValidateLists root = .ok r) : ScalesKept root r.2 :=
  foldlM_induct (fun st : Report × List Definition => ScalesKept root st.2)
    (fun _ _ _ hs h => hs.trans (validateList_scales h)) (ScalesKept.refl root) h

theorem scalesKept_checkerValidateActions {reg : List Definition} {cycles fuel : Nat}
    {root : List Definition} {r : Report × List Definition}
    (h : checkerValidateActions reg cycles fuel root = .ok r) : ScalesKept root r.2 := by
  unfold checkerValidateActions at h
  obtain ⟨_, -, h⟩ := bind_eq_ok.mp h
  obtain ⟨_, -, h⟩ := bind_eq_ok.mp h
  obtain ⟨lists, hl, h⟩ := bind_eq_ok.mp h
  cases h
  exact (scalesKept_checkerValidateLists hl :)

/-- Each line the action checks leave comes from the line at its place, with its keys, its
folded heads, its type, action flag and annotation kept. -/
theorem checkerValidateActions_origin {reg : List Definition} {cycles fuel : Nat}
    {root : List Definition} {r : Report × List Definition}
    (h : checkerValidateActions reg cycles fuel root = .ok r) {e : Definition} (he : e ∈ r.2) :
    ∃ d ∈ root, LineKept d e ∧ e.type = d.type ∧ e.action = d.action ∧ e.define = d.define := by
  obtain ⟨i, hi⟩ := List.mem_iff_getElem?.mp he
  obtain ⟨d, hd, hk⟩ := Pointwise.origin (scalesKept_checkerValidateActions h) hi
  have hv := view_eq_of_map_eq (views_checkerValidateActions
    (V := fun d : Definition => (d.type, d.action, d.define)) (fun _ _ _ => rfl) h) hd hi
  simp only [Prod.mk.injEq] at hv
  exact ⟨d, List.getElem?_mem hd, hk, hv⟩

theorem Conformant.found {available : List Define} {d : Definition} (h : Conformant available d) :
    (checkerFindDefinition available d.type d.action).isSome :=
  let ⟨_, ha, _⟩ := h
  by simp [ha]

section Accepted

variable {β : Type} {V : Definition → β}
  (hV : ∀ d e, e.type = d.type → e.action = d.action → e.nodes.length = d.nodes.length →
    e.pairs = d.pairs → e.define = d.define → V e = V d)
  {P : Definition → Prop} (hP : ∀ d e, V e = V d → P d → P e)
include hV hP

/-- A property of lines that reads only what the expansion copies, and that the checks of
`netlist_checker` without error give every top-level and body line, holds of every line of the
netlist `netlist_checker` accepts and of every body line it keeps. -/
theorem accepted_of_validated {available : List Define} {fuel : Nat} {g g' : Globals}
    {log : List Diagnostic}
    (hval : ∀ ⦃r : Report⦄ ⦃g' : Globals⦄,
      netlistCheckerValidate available fuel g = .ok (r, g') → r.errors = 0 →
        (∀ d ∈ g'.definitionRoot, P d) ∧ ∀ T ∈ g'.subcircuitRoot, ∀ d ∈ T.sub, P d)
    (h : netlistChecker available fuel g = .ok (0, g', log)) :
    (∀ d ∈ g'.definitionRoot, P d) ∧ ∀ T ∈ g'.subcircuitRoot, ∀ d ∈ T.sub, P d := by
  unfold netlistChecker at h
  obtain ⟨⟨r, g1⟩, hv, h⟩ := bind_eq_ok.mp h
  dsimp only at h
  split at h
  · rename_i h0
    obtain ⟨⟨reg, X⟩, hx, h⟩ := bind_eq_ok.mp h
    cases h
    obtain ⟨htop, hbod⟩ := hval hv h0
    -- a line with the view of a body line has its property
    have hcopy : ∀ c, V c ∈ g1.subcircuitRoot.flatMap (fun T => T.sub.map V) → P c := fun c hc =>
      let ⟨T, hT, hm⟩ := List.mem_flatMap.mp hc
      let ⟨e, he, hee⟩ := List.mem_map.mp hm
      hP e c hee.symm (hbod T hT e he)
    obtain ⟨hreg, hX⟩ := expandLoop_keeps hV (P := P) (fun c hc => hcopy c hc.2) fuel _ [] _ _
      rfl (fun _ h => absurd h (List.not_mem_nil _)) (fun d hd _ => htop d hd) hx
    refine ⟨fun d hd => (hX d hd).2, fun T hT d hd => hcopy d ?_⟩
    have hm : T.sub.map V ∈ g1.subcircuitRoot.map fun T => T.sub.map V :=
      hreg ▸ List.mem_map_of_mem _ hT
    obtain ⟨T0, hT0, hTT⟩ := List.mem_map.mp hm
    exact List.mem_flatMap.mpr ⟨T0, hT0, hTT ▸ List.mem_map_of_mem V hd⟩
  · cases h

end Accepted

/-- A template whose resistor value carries the unit scale `k`, instantiated once. -/
def scaledNetlist : List Definition :=
  [{ type := "Def", «instance» := "Load", nodes := [namedNode "p"],
     sub := [{ type := "R", «instance» := "R1", nodes := [namedNode "p", namedNode "gnd"],
               pairs := [{ key := "R", value := { value := 2, scale := some "k" } }], sub := [] }] },
   { type := "Sub", «instance» := "load", nodes := [namedNode "ext"],
     pairs := [identPair "Type" "Load"], sub := [] },
   { type := "DC", «instance» := "DC1", action := true, sub := [] }]

/-- The checks of `netlist_checker` rewrite values and annotations only: whatever they report,
the top-level list and the registry they hand on have, line for line and body line for body
line, the types, names, action flags, nodes, property keys and identifiers that
`checker_build_subcircuits` gave them. -/
theorem validation_keeps_skeletons {available : List Define} {fuel : Nat} {g g' : Globals}
    {r : Report} (h : netlistCheckerValidate available fuel g = .ok (r, g')) :
    skeletons g'.definitionRoot =
        skeletons (checkerBuildSubcircuits g.definitionRoot g.subcircuitRoot).1 ∧
      skeletons g'.subcircuitRoot =
        skeletons (checkerBuildSubcircuits g.definitionRoot g.subcircuitRoot).2 := by
  unfold netlistCheckerValidate at h
  obtain ⟨⟨r0, stored, root, reg⟩, hl, h⟩ := bind_eq_ok.mp h
  obtain ⟨actions, ha, h⟩ := bind_eq_ok.mp h
  cases h
  obtain ⟨htop, hreg⟩ := checkLists_skeletons hl
  exact ⟨(skeletons_checkerValidateActions ha).trans htop, hreg⟩

theorem scaled_netlist_skeletons :
    ∃ r g', netlistCheckerValidate sampleCatalog 4 { definitionRoot := scaledNetlist } =
        .ok (r, g') ∧
      skeletons g'.definitionRoot = skeletons (checkerBuildSubcircuits scaledNetlist []).1 ∧
      skeletons g'.subcircuitRoot = skeletons (checkerBuildSubcircuits scaledNetlist []).2 := by
  obtain ⟨r, g', h⟩ : ∃ r g',
      netlistCheckerValidate sampleCatalog 4 { definitionRoot := scaledNetlist } = .ok (r, g') :=
    ⟨_, _, rfl⟩
  exact ⟨r, g', h, validation_keeps_skeletons h⟩

end QucsNetlist
