import QucsNetlist.Checker

/-! # What the checks leave in place

The line checks annotate lines and rewrite property values, the duplicate and nodeset checks
mark lines, the sweep check folds a `Values` list, and the body loop puts each checked body
back into its template. None of them changes a line's type, instance name, action flag or
nodes, the key or identifier of a property, or the order of the lines. Every lookup of the
later passes (`checker_get_subcircuit`, the counts of the actions, the node lists of the
expansion) reads only these, so what a check proved of the list it read holds of the list
the pass ends with.
-/

namespace QucsNetlist

/-- The key and identifier of a property. -/
def Pair.ref (p : Pair) : String × Option String := (p.key, p.value.ident)

/-- What the checks read of a property beside its numbers: its key, its identifier and whether
no value follows the head. -/
structure PairForm where
  key : String
  ident : Option String
  single : Bool
  deriving DecidableEq, Repr

/-- The form of a property. -/
def Pair.form (p : Pair) : PairForm := ⟨p.key, p.value.ident, p.rest.isEmpty⟩

theorem refs_of_forms {ps qs : List Pair} (h : ps.map Pair.form = qs.map Pair.form) :
    ps.map Pair.ref = qs.map Pair.ref := by
  have := congrArg (List.map fun q : PairForm => (q.key, q.ident)) h
  simpa only [List.map_map] using this

/-- The part of a line no check writes. -/
def Definition.shape (d : Definition) :
    String × String × Bool × List Node × List (String × Option String) :=
  (d.type, d.instance, d.action, d.nodes, d.pairs.map Pair.ref)

/-- The shape of a line with the shapes of its body. -/
def Definition.skeleton (d : Definition) :=
  (d.shape, d.sub.map Definition.shape)

/-- The skeletons of a list, line by line. -/
def skeletons (l : List Definition) := l.map Definition.skeleton

@[simp] theorem skeletons_nil : skeletons [] = [] := rfl

@[simp] theorem skeletons_cons (d : Definition) (l : List Definition) :
    skeletons (d :: l) = d.skeleton :: skeletons l := rfl

theorem shapes_of_skeletons {l l' : List Definition} (h : skeletons l = skeletons l') :
    l.map Definition.shape = l'.map Definition.shape := by
  have := congrArg (List.map Prod.fst) h
  simpa only [skeletons, List.map_map] using this

/-- A line of a list has a line of the same shape at its place in a list of the same
skeletons. -/
theorem mem_of_skeletons {l l' : List Definition} (h : skeletons l = skeletons l')
    {d : Definition} (hd : d ∈ l) : ∃ d' ∈ l', d'.skeleton = d.skeleton := by
  have : d.skeleton ∈ skeletons l' := h ▸ List.mem_map_of_mem _ hd
  simpa [skeletons] using this

theorem mem_of_shapes {l l' : List Definition}
    (h : l.map Definition.shape = l'.map Definition.shape) {d : Definition} (hd : d ∈ l) :
    ∃ d' ∈ l', d'.shape = d.shape := by
  have : d.shape ∈ l'.map Definition.shape := h ▸ List.mem_map_of_mem _ hd
  simpa using this

/-! ### Rewrites that keep the skeleton -/

section Generic

variable {α γ σ ι : Type}

theorem map_modify_of {f : α → α} {g : α → γ} (h : ∀ a, g (f a) = g a) :
    ∀ (i : Nat) (l : List α), (l.modify f i).map g = l.map g
  | 0, [] => rfl
  | 0, a :: l => by show g (f a) :: l.map g = g a :: l.map g; rw [h]
  | _ + 1, [] => rfl
  | i + 1, a :: l => congrArg (g a :: ·) (map_modify_of h i l)

theorem map_modify_at {f : α → α} {g : α → γ} {a : α} (h : g (f a) = g a) :
    ∀ {i : Nat} {l : List α}, l[i]? = some a → (l.modify f i).map g = l.map g
  | 0, b :: l, hb => by
    obtain rfl : b = a := by simpa using hb
    show g (f b) :: l.map g = g b :: l.map g; rw [h]
  | i + 1, b :: l, hb => congrArg (g b :: ·) (map_modify_at h (by simpa using hb : l[i]? = some a))

theorem map_modifyFirst {p : α → Bool} {f : α → α} {g : α → γ} (h : ∀ a, g (f a) = g a) :
    ∀ l : List α, (modifyFirst p f l).map g = l.map g
  | [] => rfl
  | a :: l => by
    unfold modifyFirst
    split <;> simp [h, map_modifyFirst h l]

/-- A map commutes with a write at one position when it commutes with the written function. -/
theorem map_modify_comm {f : α → α} {u : γ → γ} {g : α → γ} (h : ∀ a, g (f a) = u (g a)) :
    ∀ (i : Nat) (l : List α), (l.modify f i).map g = (l.map g).modify u i
  | 0, [] => rfl
  | 0, a :: l => by show g (f a) :: l.map g = u (g a) :: l.map g; rw [h]
  | _ + 1, [] => rfl
  | i + 1, a :: l => congrArg (g a :: ·) (map_modify_comm h i l)

theorem map_modifyFirst_comm {p : α → Bool} {p' : γ → Bool} {f : α → α} {u : γ → γ} {g : α → γ}
    (hp : ∀ a, p' (g a) = p a) (h : ∀ a, g (f a) = u (g a)) :
    ∀ l : List α, (modifyFirst p f l).map g = modifyFirst p' u (l.map g)
  | [] => rfl
  | a :: l => by
    simp only [modifyFirst, hp, List.map_cons]
    split
    · rw [List.map_cons, h]
    · rw [List.map_cons, map_modifyFirst_comm hp h l]

/-- An invariant of every step of a loop holds after it. -/
theorem foldl_inv (F : σ → γ) {step : σ → ι → σ} (h : ∀ s k, F (step s k) = F s) :
    ∀ (ks : List ι) (s : σ), F (ks.foldl step s) = F s
  | [], _ => rfl
  | k :: ks, s => (foldl_inv F h ks (step s k)).trans (h s k)

/-- An invariant of every step of a loop that may fail holds after it. -/
theorem foldlM_inv (F : σ → γ) {step : σ → ι → Except Fault σ}
    (h : ∀ s k s', step s k = .ok s' → F s' = F s) :
    ∀ {ks : List ι} {s s' : σ}, ks.foldlM step s = .ok s' → F s' = F s
  | [], _, _, hs => by cases hs; rfl
  | k :: ks, s, s', hs => by
    rw [List.foldlM_cons] at hs
    obtain ⟨s'', h1, h2⟩ := bind_eq_ok.mp hs
    exact (foldlM_inv F h h2).trans (h s k s'' h1)

/-- A property every step of a loop keeps holds after it. -/
theorem foldl_induct (I : σ → Prop) {step : σ → ι → σ} (h : ∀ s k, I s → I (step s k)) :
    ∀ (ks : List ι) (s : σ), I s → I (ks.foldl step s)
  | [], _, hs => hs
  | k :: ks, s, hs => foldl_induct I h ks (step s k) (h s k hs)

/-- A property every step of a loop that may fail keeps holds after it. -/
theorem foldlM_induct (I : σ → Prop) {step : σ → ι → Except Fault σ}
    (h : ∀ s k s', I s → step s k = .ok s' → I s') :
    ∀ {ks : List ι} {s s' : σ}, I s → ks.foldlM step s = .ok s' → I s'
  | [], _, _, hs, h' => by cases h'; exact hs
  | k :: ks, s, s', hs, h' => by
    rw [List.foldlM_cons] at h'
    obtain ⟨s'', h1, h2⟩ := bind_eq_ok.mp h'
    exact foldlM_induct I h (h s k s'' hs h1) h2

/-- A map that commutes with every step of a loop commutes with the loop. -/
theorem foldl_comm (F : σ → σ) {step : σ → ι → σ} (h : ∀ s k, step (F s) k = F (step s k)) :
    ∀ (ks : List ι) (s : σ), ks.foldl step (F s) = F (ks.foldl step s)
  | [], _ => rfl
  | k :: ks, s => by rw [List.foldl_cons, h, foldl_comm F h ks, List.foldl_cons]

theorem forall_mem_modify {P : α → Prop} {f : α → α} {i : Nat} {l : List α} (hl : ∀ a ∈ l, P a)
    (hf : ∀ a ∈ l[i]?, P (f a)) : ∀ a ∈ l.modify f i, P a := by
  intro a ha
  obtain ⟨j, hj⟩ := List.mem_iff_getElem?.mp ha
  rw [List.getElem?_modify] at hj
  cases hb : l[j]? with
  | none => rw [hb] at hj; cases hj
  | some b =>
    rw [hb] at hj
    obtain rfl := Option.some.inj hj
    split
    · subst_vars; exact hf b hb
    · exact hl b (List.getElem?_mem hb)

end Generic

theorem skeleton_pairs {d : Definition} {ps : List Pair}
    (h : ps.map Pair.ref = d.pairs.map Pair.ref) :
    ({ d with pairs := ps } : Definition).skeleton = d.skeleton := by
  simp only [Definition.skeleton, Definition.shape, h]

theorem skeleton_sub {d : Definition} {b : List Definition}
    (h : b.map Definition.shape = d.sub.map Definition.shape) :
    ({ d with sub := b } : Definition).skeleton = d.skeleton := by
  unfold Definition.skeleton; rw [h]; rfl

theorem skeletons_modify {f : Definition → Definition} (h : ∀ d, (f d).skeleton = d.skeleton)
    (i : Nat) (l : List Definition) : skeletons (l.modify f i) = skeletons l :=
  map_modify_of h i l

/-! ### Views the line checks keep

The checks of `netlist_checker_intern` rewrite property values but not their forms (key,
identifier, whether a list follows the head), annotate lines, and mark lines as duplicates. A
view of a line blind to what a check writes is kept by that check: the skeleton is blind to
all three, and so is the body of a template; the type, name and duplicate mark of a line are
blind to the first two. -/

section Views

variable {β : Type} {V : Definition → β}

section Pairs

variable (hp : ∀ (d : Definition) (ps : List Pair), ps.map Pair.form = d.pairs.map Pair.form →
  V { d with pairs := ps } = V d)
include hp

theorem views_setValueAt {f : Value → Value} (hf : ∀ v, (f v).ident = v.ident)
    (root : List Definition) (i j : Nat) : (setValueAt root i j f).map V = root.map V :=
  map_modify_of (fun d => hp d _ (map_modify_of (fun p => by simp [Pair.form, hf]) j d.pairs)) i root

theorem views_modifyVariable {f : Value → Value} (hf : ∀ v, (f v).ident = v.ident)
    (root : List Definition) (type key ident : String) :
    (modifyVariable root type key ident f).map V = root.map V :=
  map_modifyFirst (fun d => hp d _ (map_modifyFirst (fun p => by simp [Pair.form, hf]) d.pairs)) root

theorem views_checkerResolveVariable (root : List Definition) (i j : Nat) :
    (checkerResolveVariable root i j).2.1.map V = root.map V := by
  unfold checkerResolveVariable
  split
  · rfl
  split
  · rfl
  have hv : ∀ v : Value, ({ v with var := .double } : Value).ident = v.ident := fun _ => rfl
  have hs : ∀ v : Value, ({ v with subst := true } : Value).ident = v.ident := fun _ => rfl
  dsimp only
  split <;> split <;> split <;>
    simp only [views_setValueAt hp hs, views_setValueAt hp hv, views_modifyVariable hp hv]

theorem views_checkPair (a : Define) (i j : Nat) (st : Report × List Definition) :
    (checkPair a i j st).2.map V = st.2.map V := by
  unfold checkPair
  split
  · rfl
  split
  · rfl
  exact (views_checkerResolveVariable hp _ i j).trans
    (views_setValueAt hp checkerEvaluateScale_ident st.2 i j)

theorem views_checkLine (ha : ∀ a d, V (annotate a d) = V d) (available : List Define)
    (root : List Definition) (i : Nat) (d : Definition) :
    (checkLine available root i d).2.map V = root.map V := by
  unfold checkLine
  split
  · rfl
  rename_i a _
  exact (foldl_inv (fun s : Report × List Definition => s.2.map V)
    (fun s j => views_checkPair hp a i j s) _ _).trans (map_modify_of (ha a) i root)

theorem views_checkerValidateLists {root : List Definition} {r : Report × List Definition}
    (h : checkerValidateLists root = .ok r) : r.2.map V = root.map V := by
  refine foldlM_inv (fun st : Report × List Definition => st.2.map V) (fun st i st' hs => ?_) h
  show st'.2.map V = st.2.map V
  rcases validateList_cases hs with hs | ⟨d, f, -, -, hf, hs⟩ <;> rw [hs]
  exact map_modify_of (fun d => hp d _ (map_modifyFirst (fun p => by
    simp only [Pair.form, hf p]) d.pairs)) _ _

theorem views_checkerValidateActions {reg : List Definition} {cycles fuel : Nat}
    {root : List Definition} {r : Report × List Definition}
    (h : checkerValidateActions reg cycles fuel root = .ok r) : r.2.map V = root.map V := by
  unfold checkerValidateActions at h
  obtain ⟨_, -, h⟩ := bind_eq_ok.mp h
  obtain ⟨_, -, h⟩ := bind_eq_ok.mp h
  obtain ⟨lists, hl, h⟩ := bind_eq_ok.mp h
  cases h
  exact (views_checkerValidateLists hp hl :)

end Pairs

section Marks

variable (hdup : ∀ d : Definition, V { d with duplicate := true } = V d)
include hdup

theorem views_countDefinitionFrom (type inst : String) :
    ∀ (c : Nat) (l : List Definition), (countDefinitionFrom type inst c l).2.map V = l.map V
  | _, [] => rfl
  | c, d :: ds => by
    unfold countDefinitionFrom
    split
    · split <;> simp only [List.map_cons, views_countDefinitionFrom type inst _ ds, hdup]
    · simp only [List.map_cons, views_countDefinitionFrom type inst c ds]

theorem views_checkerValidateStrips (root : List Definition) :
    (checkerValidateStrips root).2.map V = root.map V := by
  refine foldl_inv (fun st : Report × List Definition => st.2.map V) (fun st i => ?_) _ _
  unfold validateStrip
  split
  · rfl
  split
  · split
    · rfl
    · exact views_countDefinitionFrom hdup _ _ 0 _
  · rfl

theorem views_countNodesetsFrom (n : Option String) :
    ∀ {c : Nat} {l : List Definition} {r : Nat × List Definition},
      countNodesetsFrom n c l = .ok r → r.2.map V = l.map V
  | _, [], _, h => by cases h; rfl
  | c, d :: ds, r, h => by
    unfold countNodesetsFrom at h
    split at h
    · split at h
      · cases h
      · split at h
        all_goals
          obtain ⟨r', h1, h2⟩ := bind_eq_ok.mp h
          cases h2
          simp only [List.map_cons, views_countNodesetsFrom n h1]
        split <;> simp only [hdup]
    · obtain ⟨r', h1, h2⟩ := bind_eq_ok.mp h
      cases h2
      simp only [List.map_cons, views_countNodesetsFrom n h1]

theorem views_checkerValidateNodesets {root : List Definition}
    {r : Report × List Definition} (h : checkerValidateNodesets root = .ok r) :
    r.2.map V = root.map V := by
  refine foldlM_inv (fun st : Report × List Definition => st.2.map V) (fun st i st' hs => ?_) h
  unfold validateNodeset at hs
  split at hs
  · cases hs; rfl
  split at hs
  · obtain ⟨c, h1, h2⟩ := bind_eq_ok.mp hs
    cases h2
    exact views_countNodesetsFrom hdup _ h1
  · cases hs; rfl

variable (hp : ∀ (d : Definition) (ps : List Pair), ps.map Pair.form = d.pairs.map Pair.form →
  V { d with pairs := ps } = V d) (ha : ∀ a d, V (annotate a d) = V d)
include hp ha

theorem views_checkDefinition (available : List Define) (st : Report × List Definition)
    (i : Nat) : (checkDefinition available st i).2.map V = st.2.map V := by
  unfold checkDefinition
  split
  · rfl
  exact (views_countDefinitionFrom hdup _ _ 0 _).trans (views_checkLine hp ha _ _ i _)

/-- What `netlist_checker_intern` did to the list: the list its subcircuit check read, and
the list it returns, both show every such view as the list it was given. -/
theorem views_netlistCheckerIntern {available : List Define}
    {regOf : List Definition → List Definition} {fuel : Nat} {root : List Definition}
    {r : Report × Option Nat × List Definition}
    (h : netlistCheckerIntern available regOf fuel root = .ok r) :
    ∃ checked subs, checked.map V = root.map V ∧
      checkerValidateSubcircuits (regOf checked) fuel checked = .ok subs ∧
      r.2.1 = subs.2.1 ∧ subs.1 ≤ r.1.errors ∧ r.2.2.map V = root.map V := by
  unfold netlistCheckerIntern at h
  obtain ⟨subs, hs, h⟩ := bind_eq_ok.mp h
  obtain ⟨nodesets, hn, h⟩ := bind_eq_ok.mp h
  cases h
  have hchecked := (views_checkerValidateStrips hdup _).trans
    (foldl_inv (fun st : Report × List Definition => st.2.map V)
      (views_checkDefinition hdup hp ha available) (List.range root.length) (({} : Report), root))
  refine ⟨_, subs, hchecked, hs, rfl, ?_, (views_checkerValidateNodesets hdup hn).trans hchecked⟩
  simp only [Report.append_errors]
  omega

end Marks

end Views

/-- `views_netlistCheckerIntern` for the skeletons. -/
theorem netlistCheckerIntern_ok {available : List Define}
    {regOf : List Definition → List Definition} {fuel : Nat} {root : List Definition}
    {r : Report × Option Nat × List Definition}
    (h : netlistCheckerIntern available regOf fuel root = .ok r) :
    ∃ checked subs, skeletons checked = skeletons root ∧
      checkerValidateSubcircuits (regOf checked) fuel checked = .ok subs ∧
      r.2.1 = subs.2.1 ∧ subs.1 ≤ r.1.errors ∧ skeletons r.2.2 = skeletons root :=
  views_netlistCheckerIntern (V := Definition.skeleton) (fun _ => rfl)
    (fun _ _ h => skeleton_pairs (refs_of_forms h))
    (fun _ _ => rfl) h

theorem skeletons_checkerValidateLists {root : List Definition} {r : Report × List Definition}
    (h : checkerValidateLists root = .ok r) : skeletons r.2 = skeletons root := by
  refine foldlM_inv (fun st : Report × List Definition => skeletons st.2) (fun st i st' hs => ?_) h
  show skeletons st'.2 = skeletons st.2
  rcases validateList_cases hs with hs | ⟨d, f, -, -, hf, hs⟩ <;> rw [hs]
  exact skeletons_modify (fun d => skeleton_pairs (map_modifyFirst (fun p => by
    simp only [Pair.ref, hf p]) d.pairs)) _ _

theorem skeletons_checkerValidateActions {reg : List Definition} {cycles fuel : Nat}
    {root : List Definition} {r : Report × List Definition}
    (h : checkerValidateActions reg cycles fuel root = .ok r) : skeletons r.2 = skeletons root := by
  unfold checkerValidateActions at h
  obtain ⟨_, -, h⟩ := bind_eq_ok.mp h
  obtain ⟨_, -, h⟩ := bind_eq_ok.mp h
  obtain ⟨lists, hl, h⟩ := bind_eq_ok.mp h
  cases h
  exact (skeletons_checkerValidateLists hl :)

theorem skeletons_checkBody {available : List Define} {fuel : Nat}
    {st st' : Report × Option Nat × List Definition} {k : Nat} (h : checkBody available fuel st k = .ok st') :
    skeletons st'.2.2 = skeletons st.2.2 := by
  unfold checkBody at h
  split at h
  · cases h; rfl
  · rename_i T hT
    obtain ⟨r, hr, h⟩ := bind_eq_ok.mp h
    cases h
    obtain ⟨-, -, -, -, -, -, hb⟩ := netlistCheckerIntern_ok hr
    exact map_modify_at (skeleton_sub (shapes_of_skeletons hb)) hT

theorem skeletons_checkBodies {available : List Define} {fuel : Nat} {reg : List Definition}
    {r : Report × Option Nat × List Definition} (h : checkBodies available fuel reg = .ok r) :
    skeletons r.2.2 = skeletons reg :=
  foldlM_inv (fun st : Report × Option Nat × List Definition => skeletons st.2.2)
    (fun _ _ _ hs => skeletons_checkBody hs) h

end QucsNetlist
