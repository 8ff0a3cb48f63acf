import QucsNetlist.ListChecks
import QucsNetlist.Sweeps
import QucsNetlist.Flatten

/-! # When the checks of `netlist_checker` return (`check_netlist.cpp:1598-1612`)

The checks fail in four ways only: `checker_validate_lists` reads the `Type` of a sweep that
has none, `checker_count_nodesets` reads the first node of a nodeset line that has none, the
cycle search of `checker_validate_sub_cycles` follows a `Sub` line of a template body to a
template that does not exist, and `checker_count_nonlinearities` recurses without end along a
cycle reachable from the top-level list when `checker_sub_cycles` is zero. Without these, and
with fuel past the sizes of the lists, every check returns. The measures are those of the
searches: the templates not yet on the path of the cycle search and of the count, and the
actions not yet on the path of the sweep search.
-/

namespace QucsNetlist

/-- A loop whose every step returns, from every state of an invariant the steps keep, returns. -/
theorem foldlM_total {α β ε : Type} {f : β → α → Except ε β} (I : β → Prop)
    (hI : ∀ b x b', I b → f b x = .ok b' → I b') :
    ∀ {l : List α} {b : β}, (∀ b, ∀ x ∈ l, I b → ∃ b', f b x = .ok b') → I b →
      ∃ b', l.foldlM f b = .ok b'
  | [], b, _, _ => ⟨b, rfl⟩
  | x :: l, b, hf, hb => by
    obtain ⟨b1, h1⟩ := hf b x (List.mem_cons_self x l) hb
    obtain ⟨b2, h2⟩ := foldlM_total I hI (fun b y hy => hf b y (List.mem_cons_of_mem x hy))
      (hI b x b1 hb h1)
    exact ⟨b2, by rw [List.foldlM_cons, h1, ok_bind, h2]⟩

theorem mapM_total {α β ε : Type} {φ : α → Except ε β} :
    ∀ {l : List α}, (∀ x ∈ l, ∃ y, φ x = .ok y) → ∃ ys, l.mapM φ = .ok ys
  | [], _ => ⟨[], rfl⟩
  | x :: l, h => by
    obtain ⟨y, hy⟩ := h x (List.mem_cons_self x l)
    obtain ⟨ys, hys⟩ := mapM_total fun z hz => h z (List.mem_cons_of_mem x hz)
    exact ⟨y :: ys, by rw [List.mapM_cons, hy, ok_bind, hys]; rfl⟩

theorem forall_mem_modifyFirst {α : Type} {Q : α → Prop} {p : α → Bool} {f : α → α}
    (hf : ∀ a, Q a → Q (f a)) : ∀ {l : List α}, (∀ a ∈ l, Q a) → ∀ a ∈ modifyFirst p f l, Q a
  | [], _ => fun _ h => absurd h (List.not_mem_nil _)
  | a :: l, hl => by
    have ha := hl a (List.mem_cons_self a l)
    have hrest := fun b hb => hl b (List.mem_cons_of_mem a hb)
    unfold modifyFirst
    split
    · exact List.forall_mem_cons.mpr ⟨hf a ha, hrest⟩
    · exact List.forall_mem_cons.mpr ⟨ha, forall_mem_modifyFirst hf hrest⟩

/-! ### A property of lines every write of the line checks keeps -/

section Kept

variable {P : Definition → Prop} (hpairs : ∀ d (ps : List Pair), P d → P { d with pairs := ps })
  (hdup : ∀ d, P d → P { d with duplicate := true })

include hpairs in
theorem forall_setValueAt {l : List Definition} (hl : ∀ d ∈ l, P d) (i j : Nat)
    (f : Value → Value) : ∀ d ∈ setValueAt l i j f, P d :=
  forall_mem_modify hl fun d hd => hpairs d _ (hl d (List.getElem?_mem hd))

include hpairs in
theorem forall_modifyVariable {l : List Definition} (hl : ∀ d ∈ l, P d)
    (type key ident : String) (f : Value → Value) : ∀ d ∈ modifyVariable l type key ident f, P d :=
  forall_mem_modifyFirst (fun d => hpairs d _) hl

include hpairs in
theorem forall_checkerResolveVariable {root : List Definition} (hl : ∀ d ∈ root, P d)
    (i j : Nat) : ∀ d ∈ (checkerResolveVariable root i j).2.1, P d := by
  have hvar := forall_modifyVariable hpairs hl "SW" "Param"
  unfold checkerResolveVariable
  split
  · exact hl
  split
  · exact hl
  dsimp only
  split <;> split <;> split <;> (try dsimp only) <;>
    first
    | exact hl
    | exact forall_setValueAt hpairs hl _ _ _
    | exact forall_setValueAt hpairs (forall_setValueAt hpairs (hvar _ _) _ _ _) _ _ _
    | exact forall_setValueAt hpairs (hvar _ _) _ _ _

include hpairs in
theorem forall_checkPair {st : Report × List Definition} (hl : ∀ d ∈ st.2, P d) (a : Define)
    (i j : Nat) : ∀ d ∈ (checkPair a i j st).2, P d := by
  unfold checkPair
  split
  · exact hl
  split
  · exact hl
  exact forall_checkerResolveVariable hpairs (forall_setValueAt hpairs hl i j _) i j

include hdup in
theorem forall_countDefinitionFrom (type inst : String) :
    ∀ (c : Nat) {l : List Definition}, (∀ d ∈ l, P d) →
      ∀ d ∈ (countDefinitionFrom type inst c l).2, P d
  | _, [], _ => fun _ h => absurd h (List.not_mem_nil _)
  | c, d :: ds, hl => by
    have hd := hl d (List.mem_cons_self d ds)
    have hrest := fun e he => hl e (List.mem_cons_of_mem d he)
    unfold countDefinitionFrom
    split
    · refine List.forall_mem_cons.mpr ⟨?_, forall_countDefinitionFrom type inst _ hrest⟩
      split
      · exact hdup d hd
      · exact hd
    · exact List.forall_mem_cons.mpr ⟨hd, forall_countDefinitionFrom type inst c hrest⟩

include hpairs hdup in
theorem forall_checkDefinition (hann : ∀ a d, P d → P (annotate a d)) (available : List Define)
    {st : Report × List Definition} (hl : ∀ d ∈ st.2, P d) (i : Nat) :
    ∀ d ∈ (checkDefinition available st i).2, P d := by
  unfold checkDefinition
  split
  · exact hl
  refine forall_countDefinitionFrom hdup _ _ 0 ?_
  unfold checkLine
  split
  · exact hl
  rename_i a _
  exact foldl_induct (fun s : Report × List Definition => ∀ d ∈ s.2, P d)
    (fun _ j h => forall_checkPair hpairs h a i j) _ _
    (forall_mem_modify hl fun d hd => hann a d (hl d (List.getElem?_mem hd)))

include hdup in
theorem forall_checkerValidateStrips {root : List Definition} (hl : ∀ d ∈ root, P d) :
    ∀ d ∈ (checkerValidateStrips root).2, P d := by
  refine foldl_induct (fun st : Report × List Definition => ∀ d ∈ st.2, P d)
    (fun st i h => ?_) _ _ hl
  unfold validateStrip
  split
  · exact h
  split
  · split
    · exact h
    · exact forall_countDefinitionFrom hdup _ _ 0 h
  · exact h

include hdup in
theorem forall_countNodesetsFrom (n : Option String) :
    ∀ {c : Nat} {l : List Definition} {r : Nat × List Definition},
      countNodesetsFrom n c l = .ok r → (∀ d ∈ l, P d) → ∀ d ∈ r.2, P d
  | _, [], _, h, _ => by cases h; exact fun _ h => absurd h (List.not_mem_nil _)
  | c, d :: ds, r, h, hl => by
    have hd := hl d (List.mem_cons_self d ds)
    have hrest := fun e he => hl e (List.mem_cons_of_mem d he)
    unfold countNodesetsFrom at h
    split at h
    · split at h
      · cases h
      · split at h
        all_goals
          obtain ⟨r', h1, h2⟩ := bind_eq_ok.mp h
          cases h2
          refine List.forall_mem_cons.mpr ⟨?_, forall_countNodesetsFrom n h1 hrest⟩
        split
        · exact hdup d hd
        · exact hd
        exact hd
    · obtain ⟨r', h1, h2⟩ := bind_eq_ok.mp h
      cases h2
      exact List.forall_mem_cons.mpr ⟨hd, forall_countNodesetsFrom n h1 hrest⟩

include hpairs hdup in
/-- Every line `netlist_checker_intern` returns keeps a property that annotation, value writes
and duplicate marks keep. -/
theorem forall_netlistCheckerIntern (hann : ∀ a d, P d → P (annotate a d))
    {available : List Define} {regOf : List Definition → List Definition} {fuel : Nat}
    {root : List Definition} {r : Report × Option Nat × List Definition}
    (h : netlistCheckerIntern available regOf fuel root = .ok r) (hl : ∀ d ∈ root, P d) :
    ∀ d ∈ r.2.2, P d := by
  unfold netlistCheckerIntern at h
  obtain ⟨subs, -, h⟩ := bind_eq_ok.mp h
  obtain ⟨nodesets, hn, h⟩ := bind_eq_ok.mp h
  cases h
  have hlines := foldl_induct (fun st : Report × List Definition => ∀ d ∈ st.2, P d)
    (fun _ i h => forall_checkDefinition hpairs hdup hann available h i)
    (List.range root.length) ({}, root) hl
  unfold checkerValidateNodesets at hn
  refine foldlM_induct (fun st : Report × List Definition => ∀ d ∈ st.2, P d)
    (fun st i st' h hs => ?_) (s := ({}, _)) (forall_checkerValidateStrips hdup hlines) hn
  unfold validateNodeset at hs
  split at hs
  · cases hs; exact h
  split at hs
  · obtain ⟨count, hc, hs⟩ := bind_eq_ok.mp hs
    cases hs
    exact forall_countNodesetsFrom hdup _ hc h
  · cases hs; exact h

end Kept

/-! ### The nodeset lines -/

/-- A line whose nodeset flag is set, or that is a `NodeSet` line, has a node for
`checker_count_nodesets` to read. -/
def NodesetReady (d : Definition) : Prop := d.nodeset = true ∨ d.type = "NodeSet" → d.nodes ≠ []

instance (d : Definition) : Decidable (NodesetReady d) :=
  inferInstanceAs (Decidable (_ ∨ _ → _))

theorem nodesetReady_annotate (a : Define) (d : Definition) (h : NodesetReady d) :
    NodesetReady (annotate a d) := by
  rintro (hn | ht)
  · exact h (.inr (by simpa [annotate] using hn))
  · exact h (.inr ht)

theorem forall_nodesetReady_intern {available : List Define}
    {regOf : List Definition → List Definition} {fuel : Nat} {root : List Definition}
    {r : Report × Option Nat × List Definition}
    (h : netlistCheckerIntern available regOf fuel root = .ok r)
    (hl : ∀ d ∈ root, NodesetReady d) : ∀ d ∈ r.2.2, NodesetReady d :=
  forall_netlistCheckerIntern (fun _ _ h => h) (fun _ h => h) nodesetReady_annotate h hl

/-! ### The subcircuit checks -/

section Subcircuits

variable {reg : List Definition}

theorem AllResolve.transfer {reg' : List Definition} (h : skeletons reg = skeletons reg')
    (hr : AllResolve reg) : AllResolve reg' := by
  intro T' hT' d' hd'
  obtain ⟨T, hT, hTT⟩ := mem_of_skeletons h.symm hT'
  obtain ⟨d, hd, hdd⟩ := mem_of_shapes (congrArg Prod.snd hTT).symm hd'
  rw [← subReference_of_shape hdd]
  have hsome : ∀ v, (checkerFindSubcircuit reg' v).isSome = (checkerFindSubcircuit reg v).isSome :=
    fun v => by
      have hm : (checkerFindSubcircuit reg' v).map Definition.skeleton =
          (checkerFindSubcircuit reg v).map Definition.skeleton := by
        rw [checkerFindSubcircuit_skeleton, checkerFindSubcircuit_skeleton, h]
      simpa only [Option.isSome_map'] using congrArg Option.isSome hm
  simpa only [hsome] using hr T hT d hd

/-- With every body resolved and fuel past the registry, a line of
`checker_validate_subcircuits` returns. -/
theorem validateSubcircuit_total {fuel : Nat} (hres : AllResolve reg) (hfuel : reg.length < fuel)
    (d : Definition) : ∃ x, validateSubcircuit reg fuel d = .ok x := by
  unfold validateSubcircuit
  split
  · split
    · exact ⟨_, rfl⟩
    split
    · exact ⟨_, rfl⟩
    rename_i v _ sub hsub
    have hself : checkerFindSubcircuit reg sub.instance = some sub := by
      rwa [checkerFindSubcircuit_instance hsub]
    obtain ⟨r, hr, -⟩ : ∃ r, checkerValidateSubCycles reg fuel sub sub.instance d.instance [] =
        .ok r ∧ _ := checkerValidateSubCycles_ok hself (resolvesFrom_of_allResolve hres _)
      (lt_of_le_of_lt pathRoom_le hfuel)
    exact ⟨_, by rw [hr]; rfl⟩
  · exact ⟨_, rfl⟩

theorem checkerValidateSubcircuits_total {fuel : Nat} (hres : AllResolve reg)
    (hfuel : reg.length < fuel) :
    ∀ l : List Definition, ∃ x, checkerValidateSubcircuits reg fuel l = .ok x
  | [] => ⟨_, rfl⟩
  | d :: ds => by
    obtain ⟨x, hx⟩ := validateSubcircuit_total hres hfuel d
    obtain ⟨y, hy⟩ := checkerValidateSubcircuits_total hres hfuel ds
    exact ⟨_, by rw [checkerValidateSubcircuits, hx, ok_bind, hy]; rfl⟩

end Subcircuits

/-! ### One list, the registry and the bodies -/

/-- `netlist_checker_intern` returns on a list whose nodeset lines have nodes, when the
registry it searches has the skeletons of one whose bodies resolve and the fuel passes it. -/
theorem netlistCheckerIntern_total {available : List Define}
    {regOf : List Definition → List Definition} {fuel : Nat} {root R : List Definition}
    (hreg : ∀ checked, skeletons checked = skeletons root → skeletons (regOf checked) = skeletons R)
    (hres : AllResolve R) (hfuel : R.length < fuel) (hl : ∀ d ∈ root, NodesetReady d) :
    ∃ r, netlistCheckerIntern available regOf fuel root = .ok r := by
  have hready := foldl_induct (fun st : Report × List Definition => ∀ d ∈ st.2, NodesetReady d)
    (fun _ i h => forall_checkDefinition (fun _ _ h => h) (fun _ h => h) nodesetReady_annotate
      available h i) (List.range root.length) ({}, root) hl
  have hsk := (views_checkerValidateStrips (V := Definition.skeleton) (fun _ => rfl) _).trans
    (foldl_inv (fun st : Report × List Definition => skeletons st.2)
      (views_checkDefinition (V := Definition.skeleton) (fun _ => rfl)
        (fun _ _ h => skeleton_pairs (refs_of_forms h)) (fun _ _ => rfl) available)
      (List.range root.length) (({} : Report), root))
  have hR := hreg _ hsk
  obtain ⟨subs, hs⟩ := checkerValidateSubcircuits_total (hres.transfer hR.symm)
    (by rw [← List.length_map (f := Definition.skeleton), ← skeletons, hR, skeletons,
      List.length_map]; exact hfuel)
    (checkerValidateStrips ((List.range root.length).foldl (checkDefinition available)
      ({}, root)).2).2
  obtain ⟨nodesets, hn, -⟩ := nodesetsScanned
    (fun d hd hns _ => forall_checkerValidateStrips (fun _ h => h) hready d hd (.inl hns))
    (checkerValidateStrips ((List.range root.length).foldl (checkDefinition available)
      ({}, root)).2).2.length
  exact ⟨_, by simp only [netlistCheckerIntern, hs, ok_bind, checkerValidateNodesets, hn]; rfl⟩

theorem checkBodies_total {available : List Define} {fuel : Nat} {R reg : List Definition}
    (hres : AllResolve R) (hfuel : R.length < fuel) (hsk : skeletons reg = skeletons R)
    (hl : ∀ T ∈ reg, ∀ d ∈ T.sub, NodesetReady d) :
    ∃ r, checkBodies available fuel reg = .ok r := by
  let I := fun st : Report × Option Nat × List Definition =>
    skeletons st.2.2 = skeletons R ∧ ∀ T ∈ st.2.2, ∀ d ∈ T.sub, NodesetReady d
  refine foldlM_total I (fun st k st' hst hs => ⟨(skeletons_checkBody hs).trans hst.1, ?_⟩)
    (fun st k _ hst => ?_) ⟨hsk, hl⟩
  · unfold checkBody at hs
    split at hs
    · cases hs; exact hst.2
    rename_i T hT
    obtain ⟨r, hr, hs⟩ := bind_eq_ok.mp hs
    cases hs
    refine forall_mem_modify hst.2 fun T' hT' => ?_
    obtain rfl : T = T' := Option.some.inj (hT.symm.trans hT')
    exact forall_nodesetReady_intern hr (hst.2 T (List.getElem?_mem hT))
  · unfold checkBody
    split
    · exact ⟨_, rfl⟩
    rename_i T hT
    obtain ⟨r, hr⟩ : ∃ r, netlistCheckerIntern available
        (fun b => st.2.2.modify (fun T => { T with sub := b }) k) fuel T.sub = .ok r :=
      netlistCheckerIntern_total (R := R)
        (fun checked hc => (map_modify_at (skeleton_sub (shapes_of_skeletons hc)) hT).trans hst.1)
        hres hfuel (hst.2 T (List.getElem?_mem hT))
    exact ⟨_, by dsimp only; rw [hr]; rfl⟩

/-- The line checks of `netlist_checker` return on lists whose nodeset lines have nodes and
whose template bodies resolve, with fuel past the registry. -/
theorem checkLists_total {available : List Define} {fuel : Nat} {G R0 L R : List Definition}
    (hb : checkerBuildSubcircuits G R0 = (L, R))
    (hnodes : (∀ d ∈ L, NodesetReady d) ∧ ∀ T ∈ R, NodesetReady T ∧ ∀ d ∈ T.sub, NodesetReady d)
    (hres : AllResolve R) (hfuel : R.length < fuel) :
    ∃ r, checkLists available fuel G R0 = .ok r := by
  obtain ⟨top, htop⟩ : ∃ r, netlistCheckerIntern available (fun _ => R) fuel L = .ok r :=
    netlistCheckerIntern_total (fun _ _ => rfl) hres hfuel hnodes.1
  obtain ⟨defs, hdefs⟩ : ∃ r, netlistCheckerIntern available id fuel R = .ok r :=
    netlistCheckerIntern_total (fun _ h => h) hres hfuel fun T hT => (hnodes.2 T hT).1
  obtain ⟨-, -, -, -, -, -, hsk⟩ := netlistCheckerIntern_ok hdefs
  obtain ⟨-, -, -, -, -, -, hsub⟩ := views_netlistCheckerIntern (V := Definition.sub)
    (fun _ => rfl) (fun _ _ _ => rfl) (fun _ _ => rfl) hdefs
  obtain ⟨bodies, hbodies⟩ : ∃ r, checkBodies available fuel defs.2.2 = .ok r :=
    checkBodies_total hres hfuel hsk fun T hT => by
      obtain ⟨T0, hT0, hsub0⟩ := List.mem_map.mp (hsub ▸ List.mem_map_of_mem Definition.sub hT)
      exact hsub0 ▸ (hnodes.2 T0 hT0).2
  exact ⟨_, by rw [checkLists, hb]; simp only [htop, hdefs, hbodies, ok_bind]; rfl⟩

/-! ### The actions -/

section Count

variable {reg : List Definition} {cycles : Nat}

/-- One line of the count returns when the recursion into the template it names does. -/
theorem countStep_total {recurse : List Definition → Except Fault Nat} {count : Nat}
    {e : Definition} (h : ∀ T, cycles = 0 → e.type = "Sub" → checkerGetSubcircuit reg e = some T →
      ∃ c, recurse T.sub = .ok c) : ∃ c, countStep reg cycles recurse count e = .ok c := by
  by_cases hc : cycles = 0 ∧ e.type = "Sub"
  · cases hT : checkerGetSubcircuit reg e with
    | none => exact ⟨_, by simp only [countStep, if_pos hc, hT]; rfl⟩
    | some T =>
      obtain ⟨c, hc'⟩ := h T hc.1 hc.2 hT
      exact ⟨_, by simp only [countStep, if_pos hc, hT, hc']; rfl⟩
  · exact ⟨_, by simp only [countStep, if_neg hc]; rfl⟩

/-- The count of nonlinear lines returns from the body of a template reached without a cycle,
once the fuel passes the templates not yet on the path. -/
theorem checkerCountNonlinearities_body_total :
    ∀ (fuel : Nat) {P : List String} {T : Definition},
      checkerFindSubcircuit reg T.instance = some T → Descent reg P T.instance →
        pathRoom reg P < fuel → ∃ c, checkerCountNonlinearities reg cycles fuel T.sub = .ok c
  | 0, _, _, _, _, h => absurd h (Nat.not_lt_zero _)
  | fuel + 1, _, _, hT, hD, h =>
    foldlM_total (fun _ => True) (fun _ _ _ _ _ => trivial) (fun _ e he _ =>
      countStep_total fun _ _ hs hT' => checkerCountNonlinearities_body_total fuel
        (getSubcircuit_self hT') (hD.child (subEdge_of_get hT he hs hT'))
        (by have := hD.room hT; omega)) trivial

/-- The count of nonlinear lines returns on a list whose `Sub` lines lead to no cycle, once the
fuel passes the registry. -/
theorem checkerCountNonlinearities_total {root : List Definition} (hacy : SubsAcyclic reg root)
    {fuel : Nat} (hfuel : reg.length < fuel) :
    ∃ c, checkerCountNonlinearities reg cycles (fuel + 1) root = .ok c :=
  foldlM_total (fun _ => True) (fun _ _ _ _ _ => trivial) (fun _ e he _ =>
    countStep_total fun T _ hs hT => checkerCountNonlinearities_body_total fuel
      (getSubcircuit_self hT) (Descent.start (hacy e he hs T hT))
      (lt_of_le_of_lt pathRoom_le hfuel)) trivial

end Count

/-- A sweep, AC or SP action with an identifier `Type`: one `checker_validate_lists` reads
without fault. -/
def SweepTyped (d : Definition) : Prop :=
  d.action = true → (d.type = "SW" ∨ d.type = "AC" ∨ d.type = "SP") →
    (checkerFindReference d "Type").isSome

instance (d : Definition) : Decidable (SweepTyped d) :=
  inferInstanceAs (Decidable (_ → _ → _))

theorem checkerValidateLists_total {root : List Definition} (ht : ∀ d ∈ root, SweepTyped d) :
    ∃ r, checkerValidateLists root = .ok r := by
  refine foldlM_total (fun st : Report × List Definition => skeletons st.2 = skeletons root)
    (fun st i st' hst hs => ?_) (fun st i _ hst => ?_) rfl
  · rcases validateList_cases hs with hs | ⟨d, f, -, -, hf, hs⟩ <;> rw [hs]
    · exact hst
    · exact (skeletons_modify (fun d => skeleton_pairs (map_modifyFirst (fun p => by
        simp only [Pair.ref, hf p]) d.pairs)) _ _).trans hst
  · unfold validateList
    split
    · exact ⟨_, rfl⟩
    rename_i d hd
    split
    · rename_i hs
      obtain ⟨d0, hd0, hdd⟩ := mem_of_shapes (shapes_of_skeletons hst) (List.getElem?_mem hd)
      obtain ⟨ht0, -, ha0, -, -⟩ := shape_eq_iff.mp hdd
      have href : (checkerFindReference d "Type").isSome := by
        rw [checkerFindReference_of_shape hdd.symm]
        exact ht d0 hd0 (ha0 ▸ hs.1) (ht0 ▸ hs.2)
      split
      · rename_i hn; rw [hn] at href; cases href
      split
      · split <;> exact ⟨_, rfl⟩
      split <;> exact ⟨_, rfl⟩
    · exact ⟨_, rfl⟩

/-- `checker_validate_actions` returns on a list whose sweeps have a `Type` and whose `Sub`
lines lead to no cycle, once the fuel passes the registry and the list. -/
theorem checkerValidateActions_total {reg root : List Definition} {cycles fuel : Nat}
    (hacy : SubsAcyclic reg root) (ht : ∀ d ∈ root, SweepTyped d)
    (hfuel : reg.length + root.length + 1 < fuel) :
    ∃ r, checkerValidateActions reg cycles fuel root = .ok r := by
  obtain ⟨f, rfl⟩ : ∃ f, fuel = f + 1 := ⟨fuel - 1, by omega⟩
  obtain ⟨c, hc⟩ : ∃ c, checkerCountNonlinearities reg cycles (f + 1) root = .ok c :=
    checkerCountNonlinearities_total hacy (show reg.length < f by omega)
  obtain ⟨rs, hrs⟩ := mapM_total fun d (_ : d ∈ root) =>
    validatePara_ok (show root.length < f + 1 by omega) d
  obtain ⟨lists, hl⟩ := checkerValidateLists_total ht
  simp only [checkerValidateActions, checkAnalyses, checkerValidatePara, hc, hrs, hl, ok_bind]
  split <;> exact ⟨_, rfl⟩

/-! ### The run -/

/-- The checks of `netlist_checker` return, with neither a fault nor an exhausted search, on
every input whose sweeps, AC and SP actions have an identifier `Type`, whose nodeset lines have
a node, whose template bodies name only templates that exist, and whose top-level `Sub` lines
lead to no cycle, once the fuel passes the sizes of the top-level list and the registry. -/
theorem validation_terminates {available : List Define} {fuel : Nat} {g : Globals}
    {L R : List Definition}
    (hb : checkerBuildSubcircuits g.definitionRoot g.subcircuitRoot = (L, R))
    (htyped : ∀ d ∈ L, SweepTyped d)
    (hnodes : (∀ d ∈ L, NodesetReady d) ∧ ∀ T ∈ R, NodesetReady T ∧ ∀ d ∈ T.sub, NodesetReady d)
    (hres : AllResolve R) (hacy : SubsAcyclic R L) (hfuel : R.length + L.length + 1 < fuel) :
    ∃ res, netlistCheckerValidate available fuel g = .ok res := by
  obtain ⟨⟨r, stored, root, reg⟩, hl⟩ : ∃ r, checkLists available fuel g.definitionRoot
      g.subcircuitRoot = .ok r := checkLists_total hb hnodes hres (by omega)
  obtain ⟨hroot, hreg⟩ := checkLists_skeletons hl
  rw [hb] at hroot hreg
  have hsh := shapes_of_skeletons hroot
  have hlen : root.length = L.length := by
    simpa only [List.length_map] using congrArg List.length hsh
  have hrlen : reg.length = R.length := by
    simpa only [skeletons, List.length_map] using congrArg List.length hreg
  obtain ⟨actions, ha⟩ : ∃ r, checkerValidateActions reg (stored.getD g.subCycles) fuel root =
      .ok r := checkerValidateActions_total (hacy.transfer hreg.symm hsh)
    (fun d hd => by
      obtain ⟨d0, hd0, hdd⟩ := mem_of_shapes hsh hd
      obtain ⟨ht0, -, ha0, -, -⟩ := shape_eq_iff.mp hdd
      intro hact htype
      rw [checkerFindReference_of_shape hdd.symm]
      exact htyped d0 hd0 (ha0 ▸ hact) (ht0 ▸ htype))
    (show reg.length + root.length + 1 < fuel by omega)
  exact ⟨_, by rw [netlistCheckerValidate, hl, ok_bind]; simp only [ha, ok_bind]; rfl⟩

theorem nested_validation_terminates :
    ∃ L R, checkerBuildSubcircuits nestedNetlist [] = (L, R) ∧ (∀ d ∈ L, SweepTyped d) ∧
      ((∀ d ∈ L, NodesetReady d) ∧ ∀ T ∈ R, NodesetReady T ∧ ∀ d ∈ T.sub, NodesetReady d) ∧
      AllResolve R ∧ SubsAcyclic R L ∧ R.length + L.length + 1 < 6 ∧
      ∃ res, netlistCheckerValidate sampleCatalog 6 { definitionRoot := nestedNetlist } =
        .ok res := by
  have hb : checkerBuildSubcircuits nestedNetlist [] =
      ((checkerBuildSubcircuits nestedNetlist []).1, (checkerBuildSubcircuits nestedNetlist []).2) :=
    rfl
  have ht : ∀ d ∈ (checkerBuildSubcircuits nestedNetlist []).1, SweepTyped d := by decide
  have hn : (∀ d ∈ (checkerBuildSubcircuits nestedNetlist []).1, NodesetReady d) ∧
      ∀ T ∈ (checkerBuildSubcircuits nestedNetlist []).2,
        NodesetReady T ∧ ∀ d ∈ T.sub, NodesetReady d := by decide
  have hres : AllResolve (checkerBuildSubcircuits nestedNetlist []).2 := by decide
  have hacy : SubsAcyclic (checkerBuildSubcircuits nestedNetlist []).2
      (checkerBuildSubcircuits nestedNetlist []).1 := fun _ _ _ _ _ ⟨w, _, hw⟩ =>
    acyclic_of_rank (fun t => if t = "Outer" then 2 else if t = "Inner" then 1 else 0)
      (by decide) w hw
  have hf : (checkerBuildSubcircuits nestedNetlist []).2.length +
      (checkerBuildSubcircuits nestedNetlist []).1.length + 1 < 6 := by decide
  exact ⟨_, _, hb, ht, hn, hres, hacy, hf, validation_terminates hb ht hn hres hacy hf⟩

end QucsNetlist
