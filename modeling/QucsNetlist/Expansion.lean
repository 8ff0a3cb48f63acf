import QucsNetlist.Reference

/-! # The expansion refines the reference flattening

`checker_copy_subcircuits` does not resolve names directly. It writes the translation of each
template line into the registry, leaves the nodes that lead to a formal port blank below the
top level, and lets each level fill the blanks of the copies it gets back from the node of its
own `Sub` line, blanking them again while that node is itself a formal port. The proof says
what a call returns at every way its blanks can be filled later (`CopiesOf`), shows that the
registry comes back as it was, and composes the fills level by level until the top, where no
blank is left.
-/

namespace QucsNetlist

open Relation

/-! ### Node translation -/

/-- The translation `checker_xlat_subcircuit_nodes` gives a node of a template line, against the
formal nodes `type` and the instance's nodes `inst`. -/
def xlatNode (type inst : List Node) (x : Node) : Node :=
  match portOf type x.node with
  | some j => { x with xlate := (inst.getD (j - 1) ⟨none, none, 0⟩).node, xlatenr := j }
  | none => x

theorem xlatNodes_eq : ∀ (i : Nat) (ts ns nodes : List Node), ts.length ≤ ns.length →
    xlatNodes nodes i ts ns = .ok (nodes.map fun x =>
      match portOf ts x.node with
      | some j => { x with xlate := (ns.getD (j - 1) ⟨none, none, 0⟩).node, xlatenr := i + j - 1 }
      | none => x)
  | i, [], ns, nodes, _ => by simp [xlatNodes, portOf]
  | _, _ :: _, [], _, h => by simp at h
  | i, t :: ts, n :: ns, nodes, h => by
    rw [xlatNodes, xlatNodes_eq (i + 1) ts ns _ (by simpa using h), List.map_map]
    refine congrArg Except.ok (List.map_congr_left fun x _ => ?_)
    have hy : (if (x.node == t.node) = true then { x with xlate := n.node, xlatenr := i }
        else x).node = x.node := by
      split <;> rfl
    simp only [Function.comp, portOf]
    rw [hy]
    cases hp : portOf ts x.node with
    | some j =>
      obtain ⟨j, rfl⟩ : ∃ j', j = j' + 1 := ⟨j - 1, by have := (portOf_pos hp).1; omega⟩
      simp only [List.getD_cons_succ, Nat.add_sub_cancel]
      congr 1; omega
    | none =>
      by_cases hx : x.node = t.node
      · simp [hx]
      · simp [hx, Ne.symm hx]

theorem checkerXlatSubcircuitNodes_eq {type inst sub : Definition}
    (h : type.nodes.length ≤ inst.nodes.length) :
    checkerXlatSubcircuitNodes type inst sub = .ok (sub.nodes.map (xlatNode type.nodes inst.nodes)) := by
  rw [checkerXlatSubcircuitNodes, xlatNodes_eq 1 _ _ _ h]
  refine congrArg Except.ok (List.map_congr_left fun x _ => ?_)
  simp only [xlatNode]
  split <;> simp

/-- A node as the parser leaves it: named, with no translation. -/
def Node.Parsed (n : Node) : Prop := n.node.isSome ∧ n.xlate = none ∧ n.xlatenr = 0

@[simp] theorem xlatNode_node (type inst : List Node) (x : Node) :
    (xlatNode type inst x).node = x.node := by
  unfold xlatNode; split <;> rfl

theorem cleanup_xlatNode {nodes : List Node} (h : ∀ n ∈ nodes, n.Parsed) (type inst : List Node) :
    checkerCleanupXlatNodes (nodes.map (xlatNode type inst)) = nodes := by
  rw [checkerCleanupXlatNodes, List.map_map]
  refine (List.map_congr_left fun n hn => ?_).trans (List.map_id nodes)
  obtain ⟨-, h1, h2⟩ := h n hn
  cases n
  simp only at h1 h2
  subst h1 h2
  simp only [Function.comp, id]
  unfold xlatNode; split <;> rfl

/-! ### The registry comes back as it was -/

theorem modify_of_fixed {α : Type} {f : α → α} {i : Nat} {l : List α} {a : α}
    (h : l[i]? = some a) (hf : f a = a) : l.modify f i = l :=
  List.ext_getElem? fun j => by
    rw [List.getElem?_modify]
    by_cases hij : i = j
    · subst hij; simp [h, hf]
    · simp [hij]

/-- A template with the node lists of its body erased: what the expansion never writes. -/
def bodyFree (T : Definition) : Definition :=
  { T with sub := T.sub.map fun d => { d with nodes := [] } }

/-- `reg` is the registry `R0` up to the node lists of the bodies of the templates named in
`P`, the templates whose lines are being copied above the current call. -/
structure RegAt (R0 reg : List Definition) (P : List String) : Prop where
  frame : reg.map bodyFree = R0.map bodyFree
  exact : ∀ (i : Nat) (T : Definition), R0[i]? = some T → T.instance ∉ P → reg[i]? = some T

section Registry

variable {R0 reg : List Definition} {P : List String}

theorem setBodyNodes_bodyFree (reg : List Definition) (t k : Nat) (f : List Node → List Node) :
    (setBodyNodes reg t k f).map bodyFree = reg.map bodyFree :=
  map_modify_of (fun T => by
    simp only [bodyFree]
    congr 1
    exact map_modify_of (by intro; rfl) k T.sub) t reg

@[simp] theorem getElem?_setBodyNodes (reg : List Definition) (t k : Nat)
    (f : List Node → List Node) :
    (setBodyNodes reg t k f)[t]? = (reg[t]?).map fun T =>
      { T with sub := T.sub.modify (fun d => { d with nodes := f d.nodes }) k } := by
  simp [setBodyNodes]

theorem subcircuitIndex_of_frame (h : reg.map bodyFree = R0.map bodyFree) (d : Definition) :
    subcircuitIndex reg d = subcircuitIndex R0 d := by
  have hv : ∀ v, reg.findIdx? (·.instance == v) = R0.findIdx? (·.instance == v) := fun v => by
    have := congrArg (List.findIdx? (·.instance == v)) h
    simpa only [List.findIdx?_map] using this
  simp only [subcircuitIndex, hv]

@[simp] theorem subcircuitIndex_nodes (reg : List Definition) (d : Definition) (ns : List Node) :
    subcircuitIndex reg { d with nodes := ns } = subcircuitIndex reg d := rfl

theorem RegAt.start : RegAt R0 R0 P := ⟨rfl, fun _ _ h _ => h⟩

theorem RegAt.set (h : RegAt R0 reg P) {t : Nat} {T : Definition} (ht : R0[t]? = some T)
    (k : Nat) (f : List Node → List Node) :
    RegAt R0 (setBodyNodes reg t k f) (P ++ [T.instance]) := by
  refine ⟨(setBodyNodes_bodyFree reg t k f).trans h.frame, fun i T' hi hn => ?_⟩
  have hit : t ≠ i := by
    rintro rfl
    rw [ht] at hi; cases hi
    exact hn (List.mem_append_right P (List.mem_singleton_self _))
  rw [setBodyNodes, List.getElem?_modify_ne _ _ hit]
  exact h.exact i T' hi fun hm => hn (List.mem_append_left _ hm)

/-- Writing a translation into a template line and cleaning it leaves the registry as it was. -/
theorem setBodyNodes_restore {t k : Nat} {T d : Definition} (ht : reg[t]? = some T)
    (hk : T.sub[k]? = some d) (hd : ∀ n ∈ d.nodes, n.Parsed) (type inst : List Node) :
    setBodyNodes (setBodyNodes reg t k fun _ => d.nodes.map (xlatNode type inst)) t k
      checkerCleanupXlatNodes = reg := by
  rw [setBodyNodes, setBodyNodes, List.modify_modify_eq]
  refine modify_of_fixed ht ?_
  simp only [Function.comp, List.modify_modify_eq]
  rw [modify_of_fixed hk (by cases d; simp [cleanup_xlatNode hd])]
  cases T; rfl

end Registry

theorem findIdx?_bind_getElem? {α : Type} (p : α → Bool) :
    ∀ l : List α, (l.findIdx? p).bind (l[·]?) = l.find? p
  | [] => rfl
  | a :: l => by
    rw [List.findIdx?_cons, List.findIdx?_succ, List.find?_cons, ← findIdx?_bind_getElem? p l]
    cases p a <;> cases l.findIdx? p <;> simp

/-- `checker_get_subcircuit` is the template at the index the expansion looks up. -/
theorem checkerGetSubcircuit_index (reg : List Definition) (d : Definition) :
    checkerGetSubcircuit reg d = (subcircuitIndex reg d).bind (reg[·]?) := by
  simp only [checkerGetSubcircuit, subcircuitIndex, checkerFindSubcircuit, Option.bind_assoc,
    findIdx?_bind_getElem?]

/-! ### Blank nodes and their fills -/

/-- How a later level names a node: `ρ j` for a blank left at formal port `j`. -/
def resolveWith (ρ : Nat → Option String × Nat) (v : Option String × Nat) : Option String × Nat :=
  if v.1.isNone then ρ v.2 else v

/-- A node of a copy with its blank filled by `ρ`. -/
def fillNode (ρ : Nat → Option String × Nat) (c : Node) : Node :=
  { c with node := (resolveWith ρ (c.node, c.xlatenr)).1,
           xlatenr := (resolveWith ρ (c.node, c.xlatenr)).2 }

/-- A copy with its blanks filled by `ρ`. -/
def fillCopy (ρ : Nat → Option String × Nat) (c : Definition) : Definition :=
  { c with nodes := c.nodes.map (fillNode ρ) }

theorem fillNode_of_isSome {ρ : Nat → Option String × Nat} {n : Node} (h : n.node.isSome) :
    fillNode ρ n = n := by
  obtain ⟨s, hs⟩ := Option.isSome_iff_exists.mp h
  cases n
  simp_all [fillNode, resolveWith]

theorem fillCopy_of_isSome {ρ : Nat → Option String × Nat} {c : Definition}
    (h : ∀ n ∈ c.nodes, n.node.isSome) : fillCopy ρ c = c := by
  unfold fillCopy
  rw [List.map_congr_left fun n hn => fillNode_of_isSome (h n hn), List.map_id']
  cases c; rfl

theorem fillNode_fillNode (ρ ρ' : Nat → Option String × Nat) (c : Node) :
    fillNode ρ (fillNode ρ' c) = fillNode (fun j => resolveWith ρ (ρ' j)) c := by
  unfold fillNode resolveWith
  cases h : c.node <;> simp [h]

theorem fillCopy_fillCopy (ρ ρ' : Nat → Option String × Nat) (c : Definition) :
    fillCopy ρ (fillCopy ρ' c) = fillCopy (fun j => resolveWith ρ (ρ' j)) c := by
  simp [fillCopy, List.map_map, Function.comp_def, fillNode_fillNode]

/-- The name and port number a copy gets for node `n` of a line of template `T` in the instance
`x`, where `list` is the instance list of the level. -/
def copyVal (T x : Definition) (list : Option String) (n : Node) : Option String × Nat :=
  let m := xlatNode T.nodes x.nodes n
  (copyNodeName T.instance x.instance list m, m.xlatenr)

/-- The resolution of the instance's actual nodes a level sees: the names of the instance's
nodes at the top level, the fills of a later level below it. -/
def portsOf (cur : List String) (x T : Definition) (ρ : Nat → Option String × Nat) :
    List (Option String) :=
  if cur = [] then x.nodes.map (·.node) else (List.range T.nodes.length).map fun j => (ρ (j + 1)).1

theorem intercalate_go_append (s : String) : ∀ (acc : String) (l : List String) (x : String),
    String.intercalate.go acc s (l ++ [x]) = String.intercalate.go acc s l ++ s ++ x
  | _, [], _ => rfl
  | acc, a :: l, x => intercalate_go_append s (acc ++ s ++ a) l x

theorem dottedName_eq (T : String) (cur : List String) (x n : String) :
    dottedName T (checkerSubcircuitInstanceList (some cur)) x n = refName T (cur ++ [x]) n := by
  cases cur with
  | nil => rfl
  | cons c cs =>
    simp only [checkerSubcircuitInstanceList, strlistToString, dottedName, refName,
      List.cons_append, String.intercalate, intercalate_go_append, String.append_assoc]

/-- The instance list of a level tells only whether it is the outermost one. -/
theorem instanceList_getD (ins : Option (List String)) :
    checkerSubcircuitInstanceList ins = checkerSubcircuitInstanceList (some (ins.getD [])) := by
  cases ins <;> rfl

/-! ### One node of a copy -/

section CopyNode

variable {T x : Definition}

/-- A node of a copy, filled later by `ρ`, gets the direct resolution of the reference. -/
theorem copyVal_resolve (hx : ∀ m ∈ x.nodes, m.node.isSome)
    (hTx : T.nodes.length ≤ x.nodes.length) {n : Node} (hn : n.Parsed) (cur : List String)
    (ρ : Nat → Option String × Nat) :
    (resolveWith ρ (copyVal T x (checkerSubcircuitInstanceList (some cur)) n)).1 =
      refNode T (cur ++ [x.instance]) (portsOf cur x T ρ) n.node := by
  obtain ⟨hs, hxl, -⟩ := hn
  unfold copyVal refNode
  cases hp : portOf T.nodes n.node with
  | some j =>
    obtain ⟨hj0, hjT⟩ := portOf_pos hp
    have hjx : j - 1 < x.nodes.length := by omega
    obtain ⟨y, hy⟩ := Option.isSome_iff_exists.mp (hx _ (List.getElem_mem hjx))
    simp only [xlatNode, hp]
    cases cur with
    | nil =>
      simp [copyNodeName, List.getElem?_eq_getElem hjx, hy, resolveWith, portsOf,
        checkerSubcircuitInstanceList]
    | cons c cs =>
      simp [copyNodeName, List.getElem?_eq_getElem hjx, hy, resolveWith, portsOf,
        checkerSubcircuitInstanceList, List.getElem?_range (show j - 1 < T.nodes.length by omega),
        Nat.sub_add_cancel hj0]
  | none =>
    obtain ⟨s, hs⟩ := Option.isSome_iff_exists.mp hs
    simp only [xlatNode, hp]
    by_cases hg : s = "gnd" <;>
      simp [copyNodeName, hxl, hs, hg, resolveWith, checkerSubcircuitNode, dottedName_eq]

/-- `checker_copy_subcircuit_nodes` blanks a named node only below the outermost level and only
when it has a translation. -/
theorem copyNodeName_eq_none {type inst : String} {list : Option String} {m : Node}
    (hm : m.node.isSome) (h : copyNodeName type inst list m = none) :
    list.isSome ∧ m.xlate.isSome := by
  obtain ⟨s, hs⟩ := Option.isSome_iff_exists.mp hm
  unfold copyNodeName at h
  split at h
  · rename_i hx
    cases list <;> simp_all
  · split at h <;> simp_all

/-- A node of a copy is left blank only below the outermost level, at a formal port. -/
theorem copyVal_blank {n : Node} (hn : n.Parsed) (cur : List String)
    (h : (copyVal T x (checkerSubcircuitInstanceList (some cur)) n).1 = none) :
    cur ≠ [] ∧ 0 < (copyVal T x (checkerSubcircuitInstanceList (some cur)) n).2 ∧
      (copyVal T x (checkerSubcircuitInstanceList (some cur)) n).2 ≤ T.nodes.length := by
  obtain ⟨hs, hxl, -⟩ := hn
  obtain ⟨hl, hm⟩ := copyNodeName_eq_none (by simpa using hs) h
  refine ⟨by rintro rfl; simp [checkerSubcircuitInstanceList] at hl, ?_⟩
  unfold xlatNode at hm
  unfold copyVal xlatNode
  cases hp : portOf T.nodes n.node with
  | some j => simpa [hp] using portOf_pos hp
  | none => simp [hp, hxl] at hm

/-- How `checker_copy_circuit_nodes` fills blank `j` of a copy made for the nested `Sub` line `e`
of `T`: with the name node `j` of `e` gets at this level. -/
def blankFill (T x : Definition) (list : Option String) (e : Definition) (j : Nat) :
    Option String × Nat :=
  copyVal T x list (e.nodes.getD (j - 1) ⟨none, none, 0⟩)

theorem fillBlank_eq {e : Definition} {list : Option String} {n : Node}
    (hn : n.node = none → 0 < n.xlatenr ∧ n.xlatenr ≤ e.nodes.length) :
    fillBlank T.instance x.instance (e.nodes.map (xlatNode T.nodes x.nodes)) list n =
      .ok (fillNode (blankFill T x list e) n) := by
  unfold fillBlank
  cases hn' : n.node with
  | none =>
    obtain ⟨h0, hle⟩ := hn hn'
    have hj : n.xlatenr - 1 < e.nodes.length := by omega
    simp [Nat.pos_iff_ne_zero.mp h0, checkerGetCircuitNode,
      List.drop_eq_getElem_cons (show n.xlatenr - 1 < (e.nodes.map (xlatNode T.nodes x.nodes)).length
        by simpa using hj), fillNode, resolveWith, hn', blankFill, copyVal,
      List.getElem?_eq_getElem hj]
  | some s => cases n; simp_all [fillNode, resolveWith]

/-- `checker_copy_circuit_nodes` fills the blanks of a copy returned for `e` as `blankFill`
says. -/
theorem checkerCopyCircuitNodes_eq {type e c : Definition} (htype : type.instance = T.instance)
    (list : Option String)
    (hb : ∀ n ∈ c.nodes, n.node = none → 0 < n.xlatenr ∧ n.xlatenr ≤ e.nodes.length) :
    checkerCopyCircuitNodes type x { e with nodes := e.nodes.map (xlatNode T.nodes x.nodes) } c
      list = .ok (fillCopy (blankFill T x list e) c) := by
  rw [checkerCopyCircuitNodes, htype, mapM_ok fun n hn => fillBlank_eq (hb n hn)]
  rfl

end CopyNode

/-! ### The copies of one line -/

/-- Copies against a reference that depends on how a later level fills their blanks: filled by
any `ρ`, the copies are the reference in reverse order, and their blanks are formal ports of
`T`, below the outermost level only. -/
structure Renders (cur : List String) (T : Definition) (C : List Definition)
    (F : (Nat → Option String × Nat) → List Flat) : Prop where
  blank : ∀ c ∈ C, ∀ n ∈ c.nodes, n.node = none →
    cur ≠ [] ∧ 0 < n.xlatenr ∧ n.xlatenr ≤ T.nodes.length
  flat : ∀ ρ, (C.map (fillCopy ρ)).map Definition.flat = (F ρ).reverse

section Renders

variable {cur : List String} {T x : Definition}

theorem Renders.nil (cur : List String) (T : Definition) : Renders cur T [] fun _ => [] :=
  ⟨by simp, fun _ => rfl⟩

theorem Renders.append {B C : List Definition} {F G : (Nat → Option String × Nat) → List Flat}
    (hB : Renders cur T B F) (hC : Renders cur T C G) :
    Renders cur T (B ++ C) fun ρ => G ρ ++ F ρ :=
  ⟨fun c hc => (List.mem_append.mp hc).elim (hB.blank c) (hC.blank c),
   fun ρ => by simp only [List.map_append, hB.flat, hC.flat, List.reverse_append]⟩

variable (hx : ∀ m ∈ x.nodes, m.node.isSome) (hTx : T.nodes.length ≤ x.nodes.length)
  {e : Definition} (he : ∀ n ∈ e.nodes, n.Parsed)
include hx hTx he

/-- The copy of a line that is not a `Sub` line renders the reference of the line. -/
theorem renders_plain (hs : ¬ e.type = "Sub") (cur : List String)
    (recurse : List String → Definition → List (Option String) → List Flat) :
    Renders cur T
      [{ checkerCopySubcircuit { e with nodes := e.nodes.map (xlatNode T.nodes x.nodes) } with
          «instance» := checkerSubcircuitInstance T.instance
            (checkerSubcircuitInstanceList (some cur)) x.instance e.instance,
          subcircuit := some T.instance,
          nodes := checkerCopySubcircuitNodes T x (e.nodes.map (xlatNode T.nodes x.nodes))
            (checkerSubcircuitInstanceList (some cur)) }]
      fun ρ => refLine recurse T (cur ++ [x.instance]) (portsOf cur x T ρ) e := by
  refine ⟨?_, fun ρ => ?_⟩
  · intro c hc n hn hnone
    rw [List.mem_singleton] at hc
    subst hc
    simp only [checkerCopySubcircuitNodes, List.map_map, List.mem_map] at hn
    obtain ⟨m, hm, rfl⟩ := hn
    exact copyVal_blank (he m hm) cur hnone
  · simp [refLine, hs, fillCopy, Definition.flat, checkerCopySubcircuit,
      checkerCopySubcircuitNodes, checkerSubcircuitInstance, dottedName_eq, List.map_map]
    exact fun n hn => copyVal_resolve hx hTx (he n hn) cur ρ

/-- The blanks a level fills from its nested `Sub` line `e` resolve to the resolutions the
reference gives the actual nodes of `e`. -/
theorem portsOf_blankFill {T' : Definition} (hlen : T'.nodes.length = e.nodes.length)
    (cur : List String) (ρ : Nat → Option String × Nat) (d : Definition) :
    portsOf (cur ++ [x.instance]) d T'
        (fun j => resolveWith ρ (blankFill T x (checkerSubcircuitInstanceList (some cur)) e j)) =
      e.nodes.map fun n => refNode T (cur ++ [x.instance]) (portsOf cur x T ρ) n.node := by
  rw [portsOf, if_neg (by simp), hlen]
  refine List.ext_getElem (by simp) fun i h1 h2 => ?_
  have hi : i < e.nodes.length := by simpa using h2
  simp only [List.getElem_map, List.getElem_range, blankFill, Nat.add_sub_cancel,
    List.getD_eq_getElem?_getD, List.getElem?_eq_getElem hi, Option.getD_some]
  exact copyVal_resolve hx hTx (he _ (List.getElem_mem hi)) cur ρ

/-- The copies a nested `Sub` line `e` returns, once this level filled their blanks, render
the reference of the line. -/
theorem renders_sub {R : List Definition} {fuel : Nat} {T' : Definition} {C : List Definition}
    (hs : e.type = "Sub") (hlen : T'.nodes.length = e.nodes.length) (cur : List String)
    (hC : Renders (cur ++ [x.instance]) T' C fun ρ =>
      refInstance R fuel (cur ++ [x.instance]) { e with nodes := e.nodes.map (xlatNode T.nodes x.nodes) }
        (portsOf (cur ++ [x.instance]) { e with nodes := e.nodes.map (xlatNode T.nodes x.nodes) } T' ρ)) :
    Renders cur T (C.map (fillCopy (blankFill T x (checkerSubcircuitInstanceList (some cur)) e)))
      fun ρ => refLine (refInstance R fuel) T (cur ++ [x.instance]) (portsOf cur x T ρ) e := by
  refine ⟨?_, fun ρ => ?_⟩
  · simp only [List.mem_map]
    rintro _ ⟨c, hc, rfl⟩ n hn hnone
    simp only [fillCopy, List.mem_map] at hn
    obtain ⟨m, hm, rfl⟩ := hn
    cases hm' : m.node with
    | some s => simp [fillNode, resolveWith, hm'] at hnone
    | none =>
      obtain ⟨-, h0, hle⟩ := hC.blank c hc m hm hm'
      have hj : m.xlatenr - 1 < e.nodes.length := by omega
      simp only [fillNode, resolveWith, hm', Option.isNone_none, if_true] at hnone ⊢
      simp only [blankFill, List.getD_eq_getElem?_getD, List.getElem?_eq_getElem hj,
        Option.getD_some] at hnone ⊢
      exact copyVal_blank (he _ (List.getElem_mem hj)) cur hnone
  · have hcomp : (C.map (fillCopy (blankFill T x (checkerSubcircuitInstanceList (some cur)) e))).map
          (fillCopy ρ) = C.map (fillCopy fun j =>
            resolveWith ρ (blankFill T x (checkerSubcircuitInstanceList (some cur)) e j)) := by
      simp only [List.map_map, Function.comp_def, fillCopy_fillCopy]
    rw [hcomp, hC.flat, refInstance_nodes, portsOf_blankFill hx hTx he hlen]
    simp only [refLine, hs, if_true]

end Renders

/-! ### A call of `checker_copy_subcircuits` -/

/-- What the registry guarantees every call: each `Sub` line of a body names a template of the
same arity, and each node of a body is as the parser left it. -/
structure Expandable (R0 : List Definition) : Prop where
  resolve : ∀ T ∈ R0, SubsResolve R0 T.sub
  parsed : ∀ T ∈ R0, ∀ e ∈ T.sub, ∀ n ∈ e.nodes, n.Parsed

/-- The context of a call of `checker_copy_subcircuits` for the instance `x` of the template
`T` at position `t`, below the templates `P` whose lines are being copied. -/
structure CallAt (R0 reg : List Definition) (P : List String) (t : Nat) (T x : Definition) :
    Prop where
  regAt : RegAt R0 reg P
  index : R0[t]? = some T
  get : checkerGetSubcircuit R0 x = some T
  descent : Descent R0 P T.instance
  named : ∀ n ∈ x.nodes, n.node.isSome
  arity : T.nodes.length ≤ x.nodes.length

section Call

variable {R0 reg : List Definition} {P : List String} {t : Nat} {T x : Definition}

theorem CallAt.self (h : CallAt R0 reg P t T x) : reg[t]? = some T :=
  h.regAt.exact t T h.index h.descent.not_mem

theorem CallAt.mem (h : CallAt R0 reg P t T x) : T ∈ R0 := List.getElem?_mem h.index

/-- The call for a `Sub` line `e` of the template, with its translation written. -/
theorem CallAt.child (hR : Expandable R0) (h : CallAt R0 reg P t T x) {k : Nat} {e : Definition}
    (he : T.sub[k]? = some e) (hs : e.type = "Sub") :
    ∃ t' T', subcircuitIndex R0 e = some t' ∧ T'.nodes.length = e.nodes.length ∧
      CallAt R0 (setBodyNodes reg t k fun _ => e.nodes.map (xlatNode T.nodes x.nodes))
        (P ++ [T.instance]) t' T' { e with nodes := e.nodes.map (xlatNode T.nodes x.nodes) } := by
  have hem : e ∈ T.sub := List.getElem?_mem he
  obtain ⟨T', hget, hlen⟩ := hR.resolve T h.mem e hem hs
  obtain ⟨t', hidx, ht'⟩ := Option.bind_eq_some.mp ((checkerGetSubcircuit_index R0 e).symm.trans hget)
  refine ⟨t', T', hidx, hlen.symm, h.regAt.set h.index k _, ht', hget,
    h.descent.child (subEdge_of_get (getSubcircuit_self h.get) hem hs hget), ?_, by simp [hlen]⟩
  simp only [List.mem_map]
  rintro _ ⟨n, hn, rfl⟩
  rw [xlatNode_node]
  exact (hR.parsed T h.mem e hem n hn).1

theorem copyLine_spec (hR : Expandable R0) (h : CallAt R0 reg P t T x) {fuel : Nat}
    {recurse : List Definition → Nat → Definition → Option (List String) → Except Fault CopyResult}
    {cur : List String}
    (hrec : ∀ reg' t' T' d, CallAt R0 reg' (P ++ [T.instance]) t' T' d →
      ∃ C ins', recurse reg' t' d (some (cur ++ [x.instance])) = .ok (reg', C, ins') ∧
        Renders (cur ++ [x.instance]) T' C fun ρ =>
          refInstance R0 fuel (cur ++ [x.instance]) d (portsOf (cur ++ [x.instance]) d T' ρ))
    {k : Nat} {e : Definition} (he : T.sub[k]? = some e) {ins : Option (List String)}
    (hcur : ins.getD [] = cur) (root : List Definition) :
    ∃ B ins', copyLine recurse t x k (reg, root, ins) = .ok (reg, B ++ root, ins') ∧
      ins'.getD [] = cur ∧
      Renders cur T B fun ρ =>
        refLine (refInstance R0 fuel) T (cur ++ [x.instance]) (portsOf cur x T ρ) e := by
  subst hcur
  have hem : e ∈ T.sub := List.getElem?_mem he
  have hpe := hR.parsed T h.mem e hem
  have hrestore := setBodyNodes_restore h.self he hpe T.nodes x.nodes
  simp only [copyLine, h.self, he, checkerXlatSubcircuitNodes_eq h.arity, ok_bind]
  by_cases hs : e.type = "Sub"
  · obtain ⟨t', T', hidx, hlen, hc⟩ := h.child hR he hs
    obtain ⟨C, ins', hcall, hC⟩ := hrec _ _ _ _ hc
    rw [if_pos hs, subcircuitIndex_of_frame hc.regAt.frame, subcircuitIndex_nodes, hidx]
    simp only [hcall, ok_bind, getElem?_setBodyNodes, h.self, Option.map_some',
      List.getElem?_modify_eq, he, Option.map_eq_map]
    rw [mapM_ok fun c hc' => checkerCopyCircuitNodes_eq rfl _ fun n hn h0 =>
      hlen ▸ (hC.blank c hc' n hn h0).2]
    refine ⟨C.map (fillCopy _), some (ins.getD []), ?_, rfl,
      renders_sub h.named h.arity hpe hs hlen _ hC⟩
    simp only [ok_bind, except_pure, hrestore]
    rfl
  · rw [if_neg hs, instanceList_getD ins]
    simp only [ok_bind, except_pure, hrestore]
    exact ⟨_, ins, rfl, rfl, renders_plain h.named h.arity hpe hs _ _⟩

/-- The loop of `checker_copy_subcircuits` over the first `k` lines of the template. -/
theorem copyLines_spec (hR : Expandable R0) (h : CallAt R0 reg P t T x) {fuel : Nat}
    {recurse : List Definition → Nat → Definition → Option (List String) → Except Fault CopyResult}
    {cur : List String}
    (hrec : ∀ reg' t' T' d, CallAt R0 reg' (P ++ [T.instance]) t' T' d →
      ∃ C ins', recurse reg' t' d (some (cur ++ [x.instance])) = .ok (reg', C, ins') ∧
        Renders (cur ++ [x.instance]) T' C fun ρ =>
          refInstance R0 fuel (cur ++ [x.instance]) d (portsOf (cur ++ [x.instance]) d T' ρ))
    {ins : Option (List String)} (hcur : ins.getD [] = cur) :
    ∀ k, k ≤ T.sub.length → ∃ C ins',
      (List.range k).foldlM (fun st k => copyLine recurse t x k st) (reg, [], ins) =
        .ok (reg, C, ins') ∧ ins'.getD [] = cur ∧
      Renders cur T C fun ρ =>
        (T.sub.take k).flatMap (refLine (refInstance R0 fuel) T (cur ++ [x.instance]) (portsOf cur x T ρ))
  | 0, _ => ⟨[], ins, rfl, hcur, Renders.nil _ _⟩
  | k + 1, hk => by
    obtain ⟨C, ins', hfold, hins, hC⟩ := copyLines_spec hR h hrec hcur k (by omega)
    have he : T.sub[k]? = some T.sub[k] := List.getElem?_eq_getElem (by omega)
    obtain ⟨B, ins'', hline, hins', hB⟩ := copyLine_spec hR h hrec he hins C
    refine ⟨B ++ C, ins'', ?_, hins', ?_⟩
    · simp [List.range_succ, List.foldlM_append, hfold, hline]
    · have htake : T.sub.take (k + 1) = T.sub.take k ++ [T.sub[k]] := by
        rw [List.take_succ, he]; rfl
      simp only [htake, List.flatMap_append, List.flatMap_singleton]
      exact hB.append hC

end Call

/-- `checker_copy_subcircuits`, called in a context its callers establish with enough fuel,
returns the registry it was given and copies that render the reference of the instance. -/
theorem checkerCopySubcircuits_spec {R0 : List Definition} (hR : Expandable R0) (fuel : Nat) :
    ∀ {reg : List Definition} {P : List String} {t : Nat} {T x : Definition}
      (ins : Option (List String)), CallAt R0 reg P t T x → pathRoom R0 P < fuel →
      ∃ C ins', checkerCopySubcircuits fuel reg t x ins = .ok (reg, C, ins') ∧
        Renders (ins.getD []) T C fun ρ =>
          refInstance R0 fuel (ins.getD []) x (portsOf (ins.getD []) x T ρ) := by
  induction fuel with
  | zero => intro _ _ _ _ _ _ _ h; omega
  | succ fuel ih =>
    intro reg P t T x ins h hfuel
    have hroom := h.descent.room (getSubcircuit_self h.get)
    obtain ⟨C, ins', hloop, -, hC⟩ := copyLines_spec hR h
      (fun _ _ _ _ hc => ih _ hc (by omega)) rfl T.sub.length le_rfl
    refine ⟨C, ins', ?_, ?_⟩
    · rw [checkerCopySubcircuits, h.self]
      exact hloop
    · rw [List.take_length] at hC
      simpa [refInstance, h.get] using hC

/-! ### What a call leaves behind -/

/-- A call of `checker_copy_subcircuits` made where the expansion makes it, with enough fuel,
returns the registry exactly as it was given, and an instance path with the names it was given.
Two corollaries of the returned registry: the translation slots are as on entry, so at the
outermost call, on the registry as built, every body node is back to no translation (the
second part, which is `Expandable` read at that registry); and another call after it computes
what it computes alone. -/
theorem copy_subcircuits_frame {R0 : List Definition} (hR : Expandable R0) {reg : List Definition}
    {P : List String} {t : Nat} {T x : Definition} (ins : Option (List String))
    (h : CallAt R0 reg P t T x) {fuel : Nat} (hfuel : pathRoom R0 P < fuel) :
    (∃ C ins', checkerCopySubcircuits fuel reg t x ins = .ok (reg, C, ins') ∧
      ins'.getD [] = ins.getD []) ∧
    (reg = R0 → ∀ U ∈ reg, ∀ e ∈ U.sub, ∀ n ∈ e.nodes, n.xlate = none ∧ n.xlatenr = 0) ∧
    ∀ t' y ins'', (checkerCopySubcircuits fuel reg t x ins >>= fun r =>
      checkerCopySubcircuits fuel r.1 t' y ins'') = checkerCopySubcircuits fuel reg t' y ins'' := by
  cases fuel with
  | zero => omega
  | succ fuel =>
    have hroom := h.descent.room (getSubcircuit_self h.get)
    obtain ⟨C, ins', hloop, hins, -⟩ := copyLines_spec hR h
      (fun _ _ _ _ hc => checkerCopySubcircuits_spec hR fuel _ hc (by omega)) rfl T.sub.length le_rfl
    have hcall : checkerCopySubcircuits (fuel + 1) reg t x ins = .ok (reg, C, ins') := by
      rw [checkerCopySubcircuits, h.self]
      exact hloop
    refine ⟨⟨C, ins', hcall, hins⟩, ?_, fun t' y ins'' => by rw [hcall]; rfl⟩
    rintro rfl U hU e he n hn
    exact (hR.parsed U hU e he n hn).2

/-- Two templates, `Outer` instantiating `Inner`. -/
def stageRegistry : List Definition :=
  [{ type := "Def", «instance» := "Outer", nodes := [namedNode "q"],
     sub := [{ type := "Sub", «instance» := "y", nodes := [namedNode "q"],
               pairs := [identPair "Type" "Inner"], sub := [] }] },
   { type := "Def", «instance» := "Inner", nodes := [namedNode "p"],
     sub := [{ type := "R", «instance» := "R1", nodes := [namedNode "p", namedNode "n1"],
               sub := [] }] }]

/-- A top-level instance of `Outer`. -/
def outerInstance : Definition :=
  { type := "Sub", «instance» := "x", nodes := [namedNode "ext"],
    pairs := [identPair "Type" "Outer"], sub := [] }

theorem stageRegistry_expandable : Expandable stageRegistry :=
  ⟨by decide, by simp [stageRegistry, Node.Parsed, namedNode]⟩

theorem outer_copy_frame :
    (∃ C ins', checkerCopySubcircuits 3 stageRegistry 0 outerInstance none =
        .ok (stageRegistry, C, ins') ∧ ins'.getD [] = ([] : List String)) ∧
    (stageRegistry = stageRegistry → ∀ U ∈ stageRegistry, ∀ e ∈ U.sub, ∀ n ∈ e.nodes,
      n.xlate = none ∧ n.xlatenr = 0) ∧
    ∀ t' y ins'', (checkerCopySubcircuits 3 stageRegistry 0 outerInstance none >>= fun r =>
      checkerCopySubcircuits 3 r.1 t' y ins'') = checkerCopySubcircuits 3 stageRegistry t' y ins'' :=
  copy_subcircuits_frame (T := stageRegistry[0]) (x := outerInstance) stageRegistry_expandable none
    ⟨RegAt.start, rfl, rfl, Descent.start fun ⟨w, _, hw⟩ =>
      acyclic_of_rank (fun t => if t = "Outer" then 1 else 0) (by decide) w hw,
      by simp [outerInstance, namedNode], by decide⟩ (by decide)

/-- The registry as the call for `x` hands it to the call for its `Sub` line `y`: the nodes of
`y` translated. -/
def nestedRegistry : List Definition :=
  setBodyNodes stageRegistry 0 0 fun ns => ns.map (xlatNode [namedNode "q"] outerInstance.nodes)

/-- The `Sub` line `y` with its translated nodes, as the nested call receives it. -/
def innerInstance : Definition :=
  { type := "Sub", «instance» := "y",
    nodes := [namedNode "q"].map (xlatNode [namedNode "q"] outerInstance.nodes),
    pairs := [identPair "Type" "Inner"], sub := [] }

theorem nested_copy_keeps_translation :
    ∃ C ins', checkerCopySubcircuits 2 nestedRegistry 1 innerInstance (some ["x"]) =
        .ok (nestedRegistry, C, ins') ∧
      ∃ U ∈ nestedRegistry, ∃ e ∈ U.sub, ∃ n ∈ e.nodes, n.xlate ≠ none :=
  ⟨_, _, rfl, by decide⟩

end QucsNetlist
