import QucsNetlist.Duplicates

/-! # Whole-list checks: substrates, nodesets, sweeps (`check_netlist.cpp:559-655`, `697-781`)

Both checks count over the whole list while it is being marked. `checker_validate_strips`
counts the `SUBST` lines a microstrip component names, and the duplicate marks the count writes
change no later count: the check reports exactly the components whose `Subst` does not name one
substrate.

`checker_validate_nodesets` takes the nodeset lines of one node in list order. For each it
reports the node when no component uses it, then counts the nodesets not marked duplicate that
name the node first, marking every one after the first, and reports the node when it counted
more than one. The marks make the check a state machine over the list: the first nodeset line of
a node sees every unmarked nodeset of the node and leaves one, so a node held by two unmarked
nodesets is reported "not uniquely defined" once, however many nodeset lines name it.

`checker_validate_lists` reads each sweep action once and folds its `Values` as it goes. The fold
rewrites only the line just read, so the check passes exactly when every sweep has the
properties its type asks for.
-/

namespace QucsNetlist

/-- The node a nodeset line names first: the one `checker_count_nodesets` compares. -/
def Definition.nodesetNode (d : Definition) : Option (Option String) :=
  d.nodes.head?.map (·.node)

/-- The nodesets not marked duplicate whose first node is `n`: those `checker_count_nodesets`
counts. -/
def unmarkedNodesets (n : Option String) (l : List Definition) : Nat :=
  l.countP fun d => d.nodeset && !d.duplicate && d.nodesetNode == some n

/-- A nodeset line of the one node `n`: a line `checker_validate_nodesets` checks. -/
def Definition.setsNode (d : Definition) (n : Option String) : Bool :=
  d.nodeset && d.nodes.map (·.node) == [n]

/-- Every nodeset not marked duplicate has a first node for `checker_count_nodesets` to read. -/
def NodesetsNamed (l : List Definition) : Prop :=
  ∀ d ∈ l, d.nodeset = true → d.duplicate = false → d.nodes ≠ []

/-- The node a "not uniquely defined" message names. -/
def Diagnostic.notUniqueNode : Diagnostic → Option (Option String)
  | .nodeNotUnique _ n _ _ => some n
  | _ => none

/-- The node a "no such node" message names. -/
def Diagnostic.missingNode : Diagnostic → Option (Option String)
  | .noSuchNode _ n _ _ => some n
  | _ => none

/-- What the nodeset check reads of a line besides its mark. -/
def Definition.nodeView (d : Definition) : Bool × Bool × List Node := (d.nodeset, d.action, d.nodes)

theorem NodesetsNamed.tail {d : Definition} {l : List Definition} (h : NodesetsNamed (d :: l)) :
    NodesetsNamed l := fun x hx => h x (List.mem_cons_of_mem _ hx)

theorem NodesetsNamed.cons {d : Definition} {l l' : List Definition} (h : NodesetsNamed (d :: l))
    (h' : NodesetsNamed l') : NodesetsNamed (d :: l') :=
  List.forall_mem_cons.mpr ⟨h d (List.mem_cons_self _ _), h'⟩

theorem NodesetsNamed.mark {d : Definition} {l : List Definition} (h : NodesetsNamed l) :
    NodesetsNamed ({ d with duplicate := true } :: l) :=
  List.forall_mem_cons.mpr ⟨fun _ h => absurd h Bool.noConfusion, h⟩

theorem unmarkedNodesets_cons (n : Option String) (d : Definition) (l : List Definition) :
    unmarkedNodesets n (d :: l) = unmarkedNodesets n l +
      if d.nodeset && !d.duplicate && d.nodesetNode == some n then 1 else 0 :=
  List.countP_cons ..

/-! ### `checker_validate_strips` -/

/-- A microstrip component whose substrate `checker_validate_strips` rejects: it has no
identifier `Subst`, or the one it has names other than one `SUBST` line of `L`. -/
def badStrip (L : List Definition) (d : Definition) : Bool :=
  !d.action && d.type ∈ stripAvailable &&
    (checkerFindReference d "Subst").all fun v => (L.map Definition.key).count ("SUBST", v) != 1

/-- What the strip check reads of a line besides its mark. -/
def Definition.stripView (d : Definition) : Bool × (String × String) × List Pair :=
  (d.action, d.key, d.pairs)

theorem badStrip_of_stripView {L : List Definition} {d e : Definition}
    (h : e.stripView = d.stripView) : badStrip L e = badStrip L d := by
  simp only [Definition.stripView, Definition.key, Prod.mk.injEq] at h
  simp only [badStrip, checkerFindReference, h]

/-- The strip loop after the first `k` lines of `L`: the list differs from `L` in marks only,
and one error stands for each rejected component among those lines. -/
def StripsScanned (L : List Definition) (k : Nat) (st : Report × List Definition) : Prop :=
  st.2.map Definition.stripView = L.map Definition.stripView ∧
    st.1.errors = (L.take k).countP (badStrip L)

theorem StripsScanned.step {L : List Definition} {k : Nat} {st : Report × List Definition}
    (h : StripsScanned L k st) : StripsScanned L (k + 1) (validateStrip st k) := by
  obtain ⟨hv, he⟩ := h
  have hk := congrArg (·[k]?) hv
  simp only [List.getElem?_map] at hk
  unfold validateStrip
  cases hd : st.2[k]? with
  | none =>
    have hn : L.length ≤ k := by simpa [hd] using hk.symm
    exact ⟨hv, by simp [List.take_succ, List.getElem?_eq_none hn, he]⟩
  | some d =>
    obtain ⟨e, hL, hed⟩ := Option.map_eq_some'.mp (by simpa [hd] using hk.symm)
    have hkeys : st.2.map Definition.key = L.map Definition.key := by
      simpa [List.map_map] using congrArg (List.map fun v => v.2.1) hv
    dsimp only
    rw [StripsScanned, List.take_succ, hL, List.countP_append, ← he, Option.toList_some,
      List.countP_singleton, badStrip_of_stripView hed]
    split
    · rename_i hs
      cases hr : checkerFindReference d "Subst" with
      | none => exact ⟨hv, by simp [badStrip, hr, hs, Report.error]⟩
      | some v =>
        refine ⟨(views_countDefinitionFrom (V := Definition.stripView) (fun _ => rfl) _ _ 0 _).trans hv,
          ?_⟩
        simp [badStrip, hr, hs, checkerCountDefinition, countDefinitionFrom_fst, hkeys]
    · rename_i hs
      exact ⟨hv, by simp [badStrip, hs]⟩

theorem stripsScanned (L : List Definition) :
    ∀ k, StripsScanned L k ((List.range k).foldl validateStrip ({}, L))
  | 0 => ⟨rfl, rfl⟩
  | k + 1 => by
    rw [List.range_succ, List.foldl_append]
    exact (stripsScanned L k).step

/-- `checker_validate_strips` reports one error for each microstrip component whose `Subst` is
not an identifier naming exactly one `SUBST` line of the list, and no other: it passes exactly
when every microstrip component names one substrate. -/
theorem strips_check_exact (L : List Definition) :
    (checkerValidateStrips L).1.errors = L.countP (badStrip L) ∧
      ((checkerValidateStrips L).1.errors = 0 ↔ ∀ d ∈ L, d.action = false →
        d.type ∈ stripAvailable → ∃ v, checkerFindReference d "Subst" = some v ∧
          (L.map Definition.key).count ("SUBST", v) = 1) := by
  have h : (checkerValidateStrips L).1.errors = L.countP (badStrip L) := by
    simpa only [List.take_length] using (stripsScanned L L.length).2
  refine ⟨h, ?_⟩
  rw [h, List.countP_eq_zero]
  refine forall₂_congr fun d _ => ?_
  cases hr : checkerFindReference d "Subst" <;> cases ha : d.action <;> simp [badStrip, hr, ha]

/-! ### `checker_count_nodesets` -/

/-- The count of node `n` from `c`: it adds the unmarked nodesets of `n`, leaves one of them
unmarked when none was counted before and none otherwise, and touches no other node's. -/
theorem countNodesetsFrom_spec (n : Option String) : ∀ (c : Nat) (l : List Definition),
    NodesetsNamed l → ∃ l', countNodesetsFrom n c l = .ok (c + unmarkedNodesets n l, l') ∧
      NodesetsNamed l' ∧ unmarkedNodesets n l' = (if c = 0 then min 1 (unmarkedNodesets n l) else 0) ∧
      ∀ m, m ≠ n → unmarkedNodesets m l' = unmarkedNodesets m l
  | _, [], _ => ⟨[], rfl, fun _ h => absurd h (List.not_mem_nil _), by simp [unmarkedNodesets],
      fun _ _ => rfl⟩
  | c, d :: ds, hl => by
    unfold countNodesetsFrom
    cases hd : d.nodeset && !d.duplicate
    case false =>
      obtain ⟨l', h1, hn, hu, hm⟩ := countNodesetsFrom_spec n c ds hl.tail
      refine ⟨d :: l', by simp [h1, unmarkedNodesets, hd], hl.cons hn, ?_, fun m hmn => ?_⟩
      · simp [unmarkedNodesets_cons, hd, hu]
      · simp only [unmarkedNodesets_cons, hd, Bool.false_and, hm m hmn]
    case true =>
      cases hnodes : d.nodes with
      | nil =>
        obtain ⟨h1, h2⟩ : d.nodeset = true ∧ d.duplicate = false := by simpa using hd
        exact absurd hnodes (hl d (List.mem_cons_self _ _) h1 h2)
      | cons node rest =>
        have hnode : d.nodesetNode = some node.node := by simp [Definition.nodesetNode, hnodes]
        have hdm : ∀ m, (d.nodeset && !d.duplicate && d.nodesetNode == some m) = (node.node == m) := by
          simp [hd, hnode]
        have hmark : ∀ m, ({ d with duplicate := true }.nodeset && !true &&
            d.nodesetNode == some m) = false := by simp
        by_cases hn : node.node = n
        · subst hn
          obtain ⟨l', h1, hnm, hu, hm⟩ := countNodesetsFrom_spec node.node (c + 1) ds hl.tail
          have hu0 : unmarkedNodesets node.node l' = 0 := by simpa using hu
          rcases Nat.eq_zero_or_pos c with rfl | hc
          · refine ⟨d :: l', ?_, hl.cons hnm, ?_, fun m hmn => ?_⟩
            · simp [h1, unmarkedNodesets_cons, hdm]; omega
            · simp [unmarkedNodesets_cons, hdm, hu0]
            · simp [unmarkedNodesets_cons, hdm, hm m hmn, Ne.symm hmn]
          · refine ⟨{ d with duplicate := true } :: l', ?_, hnm.mark, ?_, fun m hmn => ?_⟩
            · simp [h1, unmarkedNodesets_cons, hdm, hc, hnodes]; omega
            · simp [unmarkedNodesets_cons, hmark, hu0, Nat.pos_iff_ne_zero.mp hc]
            · simp [unmarkedNodesets_cons, hdm, hmark, hm m hmn, Ne.symm hmn]
        · obtain ⟨l', h1, hnm, hu, hm⟩ := countNodesetsFrom_spec n c ds hl.tail
          refine ⟨d :: l', ?_, hl.cons hnm, ?_, fun m hmn => ?_⟩
          · simp [h1, unmarkedNodesets_cons, hdm, hn]
          · simp [unmarkedNodesets_cons, hdm, hn, hu]
          · simp only [unmarkedNodesets_cons, hdm, hm m hmn]

/-! ### The loop of `checker_validate_nodesets` -/

theorem checkerCountNodesNamed_eq (l : List Definition) (n : Option String) :
    checkerCountNodesNamed l n = ((l.map Definition.nodeView).filter fun v => !v.2.1 && !v.1).foldr
      (fun v c => c + v.2.2.countP (·.node == n)) 0 := by
  simp only [checkerCountNodesNamed, List.filter_map, List.foldr_map]
  rfl

theorem setsNode_of_nodeView {d e : Definition} (h : e.nodeView = d.nodeView) :
    e.setsNode = d.setsNode := by
  simp only [Definition.nodeView, Prod.mk.injEq] at h
  funext n
  simp only [Definition.setsNode, h]

theorem Report.when_filterMap_count {β : Type} [BEq β] [LawfulBEq β] (f : Diagnostic → Option β)
    (c : Bool) (m : Diagnostic) (b : β) :
    ((Report.when c m).log.filterMap f).count b = if c && f m == some b then 1 else 0 := by
  cases c
  · simp
  · cases h : f m <;> simp [h, List.filterMap_cons, List.count_singleton]
    rfl

/-- What the nodeset loop has done once the first `k` lines of `L` are checked: the list differs
from `L` in marks only, a node some checked line sets alone keeps at most one unmarked nodeset,
and each node has been reported as the counts of `L` say. -/
structure NodesetsScanned (L : List Definition) (k : Nat) (st : Report × List Definition) : Prop where
  views : st.2.map Definition.nodeView = L.map Definition.nodeView
  named : NodesetsNamed st.2
  unmarked : ∀ n, unmarkedNodesets n st.2 =
    if (L.take k).any (·.setsNode n) then min 1 (unmarkedNodesets n L) else unmarkedNodesets n L
  notUnique : ∀ n, (st.1.log.filterMap Diagnostic.notUniqueNode).count n =
    if (L.take k).any (·.setsNode n) = true ∧ 2 ≤ unmarkedNodesets n L then 1 else 0
  missing : ∀ n, (st.1.log.filterMap Diagnostic.missingNode).count n =
    if checkerCountNodesNamed L n = 0 then (L.take k).countP (·.setsNode n) else 0

theorem NodesetsScanned.init {L : List Definition} (hL : NodesetsNamed L) :
    NodesetsScanned L 0 ({}, L) :=
  ⟨rfl, hL, by simp, by simp, by simp⟩

theorem NodesetsScanned.step {L : List Definition} {k : Nat} {st : Report × List Definition}
    (h : NodesetsScanned L k st) :
    ∃ st', validateNodeset st k = .ok st' ∧ NodesetsScanned L (k + 1) st' := by
  have hk := congrArg (·[k]?) h.views
  simp only [List.getElem?_map] at hk
  unfold validateNodeset
  cases hd : st.2[k]? with
  | none =>
    have ht : L.take (k + 1) = L.take k := by
      have hn : L.length ≤ k := by simpa [hd] using hk.symm
      rw [List.take_succ, List.getElem?_eq_none hn]
      simp
    exact ⟨st, rfl, h.views, h.named, by simpa only [ht] using h.unmarked,
      by simpa only [ht] using h.notUnique, by simpa only [ht] using h.missing⟩
  | some d =>
    obtain ⟨e, hL, he⟩ := Option.map_eq_some'.mp (by simpa [hd] using hk.symm)
    have ht : L.take (k + 1) = L.take k ++ [e] := by rw [List.take_succ, hL]; rfl
    have hse := setsNode_of_nodeView he
    dsimp only
    split
    · rename_i node hns hnodes
      have hsets : ∀ n, d.setsNode n = (node.node == n) := by simp [Definition.setsNode, hns, hnodes]
      obtain ⟨l', h1, hnm, hu, hm⟩ := countNodesetsFrom_spec node.node 0 st.2 h.named
      have hcnt : checkerCountNodesNamed st.2 node.node = checkerCountNodesNamed L node.node := by
        rw [checkerCountNodesNamed_eq, h.views, ← checkerCountNodesNamed_eq]
      refine ⟨_, by rw [checkerCountNodesets, h1]; rfl,
        (views_countNodesetsFrom (V := Definition.nodeView) (fun _ => rfl) _ h1).trans h.views, hnm,
        fun n => ?_, fun n => ?_, fun n => ?_⟩
      all_goals
        simp only [ht, List.any_append, List.any_cons, List.any_nil, List.countP_append,
          List.countP_cons, List.countP_nil, hse, hsets, Bool.or_false, Report.append_log,
          List.filterMap_append, List.count_append, Report.when_filterMap_count, h.notUnique n,
          h.missing n, Diagnostic.notUniqueNode, Diagnostic.missingNode, hcnt]
        by_cases hn : n = node.node
      -- the unmarked nodesets: only those of the node checked change
      · subst hn
        rcases Bool.eq_false_or_eq_true ((L.take k).any (·.setsNode node.node)) with hA | hA <;>
          simp [hA, hu, h.unmarked]
      · simp [hm n hn, h.unmarked, Ne.symm hn]
      -- "not uniquely defined": only the first line of a node can count two
      · subst hn
        rcases Bool.eq_false_or_eq_true ((L.take k).any (·.setsNode node.node)) with hA | hA
        · simp [hA, h.unmarked]
        · simp [hA, h.unmarked]
          split_ifs <;> omega
      · simp [Ne.symm hn]
      -- "no such node": once for every line of a node no component uses
      · subst hn
        simp
        split_ifs <;> omega
      · simp [Ne.symm hn]
    · rename_i hx
      have hns : ∀ n, d.setsNode n = false := fun n => by
        rw [Bool.eq_false_iff]
        intro hs
        simp only [Definition.setsNode, Bool.and_eq_true, beq_iff_eq] at hs
        obtain ⟨a, l₁, hnodes, -, hl₁⟩ := List.map_eq_cons_iff.mp hs.2
        exact hx a hs.1 (by rw [hnodes, List.map_eq_nil_iff.mp hl₁])
      refine ⟨st, rfl, h.views, h.named, fun n => ?_, fun n => ?_, fun n => ?_⟩
      all_goals simp only [ht, List.any_append, List.any_cons, List.any_nil, List.countP_append,
        List.countP_cons, List.countP_nil, hse, hns, Bool.or_false]
      exacts [h.unmarked n, h.notUnique n, h.missing n]

theorem nodesetsScanned {L : List Definition} (hL : NodesetsNamed L) :
    ∀ k, ∃ st, (List.range k).foldlM validateNodeset ({}, L) = .ok st ∧ NodesetsScanned L k st
  | 0 => ⟨({}, L), rfl, .init hL⟩
  | k + 1 => by
    obtain ⟨st, h1, hs⟩ := nodesetsScanned hL k
    obtain ⟨st', h2, hs'⟩ := hs.step
    refine ⟨st', ?_, hs'⟩
    rw [List.range_succ, List.foldlM_append, h1]
    simp [h2]

theorem sweepProperty_errors (d : Definition) (key : String) (required : Bool) :
    (sweepProperty d key required).errors =
      if (checkerFindPropValue d key).isSome = required then 0 else 1 := by
  unfold sweepProperty
  cases checkerFindPropValue d key <;> cases required <;> rfl

theorem sweepProperty_errors_eq_zero (d : Definition) (key : String) (required : Bool) :
    (sweepProperty d key required).errors = 0 ↔ (checkerFindPropValue d key).isSome = required := by
  rw [sweepProperty_errors]
  split <;> simp_all

/-- A sweep action as `checker_validate_lists` accepts it. A `const` or `list` sweep has a numeric
`Values`, a single value if `const`, and no numeric `Start`, `Stop` or `Points`; a `lin` or `log`
sweep has numeric `Start`, `Stop` and `Points` and no numeric `Values`. -/
def SweepListed (d : Definition) : Prop :=
  d.action = true → (d.type = "SW" ∨ d.type = "AC" ∨ d.type = "SP") →
    ∀ t, checkerFindReference d "Type" = some t →
      ((t = "const" ∨ t = "list") →
        (∃ pv, checkerFindPropValue d "Values" = some pv ∧ (t = "const" → pv.rest = [])) ∧
          checkerFindPropValue d "Start" = none ∧ checkerFindPropValue d "Stop" = none ∧
          checkerFindPropValue d "Points" = none) ∧
      ((t = "lin" ∨ t = "log") →
        (checkerFindPropValue d "Start").isSome ∧ (checkerFindPropValue d "Stop").isSome ∧
          (checkerFindPropValue d "Points").isSome ∧ checkerFindPropValue d "Values" = none)

theorem sweepListed_iff {d : Definition} {t : String} (hs : d.action = true ∧
    (d.type = "SW" ∨ d.type = "AC" ∨ d.type = "SP")) (ht : checkerFindReference d "Type" = some t) :
    SweepListed d ↔
      ((t = "const" ∨ t = "list") →
        (∃ pv, checkerFindPropValue d "Values" = some pv ∧ (t = "const" → pv.rest = [])) ∧
          checkerFindPropValue d "Start" = none ∧ checkerFindPropValue d "Stop" = none ∧
          checkerFindPropValue d "Points" = none) ∧
      ((t = "lin" ∨ t = "log") →
        (checkerFindPropValue d "Start").isSome ∧ (checkerFindPropValue d "Stop").isSome ∧
          (checkerFindPropValue d "Points").isSome ∧ checkerFindPropValue d "Values" = none) :=
  ⟨fun h => h hs.1 hs.2 t ht, fun h _ _ _ ht' => Option.some.inj (ht.symm.trans ht') ▸ h⟩

/-- A line of `checker_validate_lists` never lowers the error count, and adds no error exactly
when the line it reads is a sweep the check accepts. -/
theorem validateList_errors {st st' : Report × List Definition} {i : Nat} {d : Definition}
    (hd : st.2[i]? = some d) (h : validateList st i = .ok st') :
    st.1.errors ≤ st'.1.errors ∧ (st'.1.errors = st.1.errors ↔ SweepListed d) := by
  unfold validateList at h
  rw [hd] at h
  dsimp only at h
  by_cases hs : d.action ∧ (d.type = "SW" ∨ d.type = "AC" ∨ d.type = "SP")
  swap
  · rw [if_neg hs] at h
    cases h
    exact ⟨le_rfl, iff_of_true rfl fun ha hty => absurd ⟨ha, hty⟩ hs⟩
  rw [if_pos hs] at h
  cases ht : checkerFindReference d "Type" with
  | none => rw [ht] at h; cases h
  | some t =>
    rw [ht] at h
    dsimp only at h
    rw [sweepListed_iff hs ht]
    have hsum : ∀ n a b c e : Nat, n + a + b + c + e = n ↔ a = 0 ∧ b = 0 ∧ c = 0 ∧ e = 0 := by
      omega
    by_cases hc : t = "const" ∨ t = "list"
    · have hl : ¬(t = "lin" ∨ t = "log") := by rcases hc with rfl | rfl <;> decide
      rw [if_pos hc] at h
      cases hv : checkerFindPropValue d "Values" with
      | none =>
        rw [hv] at h
        cases h
        refine ⟨by simp only [Report.append_errors]; omega, ?_⟩
        simp [hsum, sweepProperty_errors_eq_zero, hv, hc, hl]
      | some pv =>
        rw [hv] at h
        cases h
        refine ⟨by simp only [Report.append_errors]; omega, ?_⟩
        simp [hsum, sweepProperty_errors_eq_zero, Report.when_errors_eq_zero, hc, hl]
    · rw [if_neg hc] at h
      by_cases hl : t = "lin" ∨ t = "log"
      · rw [if_pos hl] at h
        cases h
        refine ⟨by simp only [Report.append_errors]; omega, ?_⟩
        simp [hsum, sweepProperty_errors_eq_zero, hc, hl]
      · rw [if_neg hl] at h
        cases h
        simp [hc, hl]

/-- After `k` lines of `checker_validate_lists`: the lines not read yet are those of `L`, and no
error is counted exactly when each line read is a sweep the check accepts. -/
structure ListsScanned (L : List Definition) (k : Nat) (st : Report × List Definition) : Prop where
  ahead : ∀ j, k ≤ j → st.2[j]? = L[j]?
  errors : st.1.errors = 0 ↔ ∀ j < k, ∀ d ∈ L[j]?, SweepListed d

theorem ListsScanned.step {L : List Definition} {k : Nat} {st st' : Report × List Definition}
    (h : ListsScanned L k st) (hs : validateList st k = .ok st') :
    ListsScanned L (k + 1) st' := by
  refine ⟨fun j hj => ?_, ?_⟩
  · rcases validateList_cases hs with he | ⟨_, _, -, -, -, he⟩ <;> rw [he]
    · exact h.ahead j (by omega)
    · rw [List.getElem?_modify_ne _ _ (by omega)]
      exact h.ahead j (by omega)
  have hsplit : (∀ j < k + 1, ∀ d ∈ L[j]?, SweepListed d) ↔
      (∀ j < k, ∀ d ∈ L[j]?, SweepListed d) ∧ ∀ d ∈ L[k]?, SweepListed d :=
    ⟨fun hp => ⟨fun j hj => hp j (by omega), hp k (by omega)⟩, fun ⟨hp, hl⟩ j hj =>
      (Nat.lt_succ_iff_lt_or_eq.mp hj).elim (hp j) fun h => h ▸ hl⟩
  have hk := h.ahead k le_rfl
  rw [hsplit, ← h.errors]
  cases hd : L[k]? with
  | none =>
    rw [hd] at hk
    simp only [validateList, hk, pure, Except.pure, Except.ok.injEq] at hs
    subst hs
    simp
  | some d =>
    obtain ⟨hle, hiff⟩ := validateList_errors (hk.trans hd) hs
    simp only [Option.mem_def, Option.some.injEq, forall_eq', ← hiff]
    omega

theorem listsScanned (L : List Definition) : ∀ (k : Nat) (st : Report × List Definition),
    (List.range k).foldlM validateList ({}, L) = .ok st → ListsScanned L k st
  | 0, st, h => by
    cases h
    exact ⟨fun _ _ => rfl, iff_of_true rfl fun _ h => absurd h (Nat.not_lt_zero _)⟩
  | k + 1, st, h => by
    rw [List.range_succ, List.foldlM_append] at h
    obtain ⟨s, hs, h⟩ := bind_eq_ok.mp h
    rw [List.foldlM_cons] at h
    obtain ⟨s', hs', h⟩ := bind_eq_ok.mp h
    cases h
    exact (listsScanned L k s hs).step hs'

/-- When `checker_validate_lists` returns, it reports no error exactly when every sweep action of
the list is one it accepts: a `const` or `list` sweep with a numeric `Values`, single if
`const`, and no numeric `Start`, `Stop` or `Points`, or a `lin` or `log` sweep with numeric
`Start`, `Stop` and `Points` and no numeric `Values`. The `Values` it folds on the way never
change a later line's verdict. -/
theorem lists_check_exact {L : List Definition} {r : Report × List Definition}
    (h : checkerValidateLists L = .ok r) : r.1.errors = 0 ↔ ∀ d ∈ L, SweepListed d := by
  rw [(listsScanned L L.length r h).errors]
  constructor
  · intro hp d hd
    obtain ⟨j, hj⟩ := List.mem_iff_getElem?.mp hd
    exact hp j (List.getElem?_eq_some_iff.mp hj).1 d hj
  · exact fun hp j _ d hd => hp d (List.getElem?_mem hd)

/-- A `lin` parameter sweep and a `const` s-parameter sweep, each with the properties its type
asks for. -/
def sweepSample : List Definition :=
  [{ type := "SW", «instance» := "SW1", action := true,
     pairs := [identPair "Type" "lin", { key := "Start", value := { value := 1 } },
       { key := "Stop", value := { value := 10 } }, { key := "Points", value := { value := 10 } }],
     sub := [] },
   { type := "SP", «instance» := "SP1", action := true,
     pairs := [identPair "Type" "const", { key := "Values", value := { value := 1 } }], sub := [] }]

theorem sweep_sample_listed :
    ∃ r, checkerValidateLists sweepSample = .ok r ∧
      (r.1.errors = 0 ↔ ∀ d ∈ sweepSample, SweepListed d) := by
  obtain ⟨r, h⟩ : ∃ r, checkerValidateLists sweepSample = .ok r := ⟨_, rfl⟩
  exact ⟨r, h, lists_check_exact h⟩

end QucsNetlist
