import QucsNetlist.SubCycles

/-! # Subcircuit expansion (`check_netlist.cpp:956-1222`, `1385-1421`)

`checker_copy_subcircuits` copies the lines of a template for one `Sub` instance. Before a
line is handled its nodes get their translation (`xlate`, `xlatenr`) against the template's
formal nodes; a nested `Sub` line is expanded recursively with the instance path lengthened,
and the nodes its copies left blank (formal nodes of the nested template) are then named from
this level, or left blank again for the level above; any other line is copied sharing its
properties, with a dotted instance name and dotted internal node names. The translation is
cleared after each line. `checker_expand_subcircuits` replaces each top-level `Sub` line by
its copies. Translation slots live in the template lines, so the model threads the registry
and names a template by its position in it.
-/

namespace QucsNetlist

/-- `checker_copy_subcircuit`: a copy of a template line, marked as a copy and sharing the
properties of the original; its instance name and nodes are set by the caller. -/
def checkerCopySubcircuit (sub : Definition) : Definition :=
  { type := sub.type, «instance» := "", action := sub.action, nonlinear := sub.nonlinear,
    substrate := sub.substrate, nodeset := sub.nodeset, define := sub.define, pairs := sub.pairs,
    copy := true, sub := [] }

/-- The loop of `checker_xlat_subcircuit_nodes` from formal node `i`: a node of the template
line named like the formal node is translated to the instance's node at the same place, with
the position; a formal node further on wins. An instance with fewer nodes than the template
makes the loop step through `NULL`. -/
def xlatNodes (nodes : List Node) : Nat → List Node → List Node → Except Fault (List Node)
  | _, [], _ => pure nodes
  | _, _ :: _, [] => throw (.nullDeref "checker_xlat_subcircuit_nodes: ninst->next")
  | i, t :: ts, n :: ns =>
    xlatNodes (nodes.map fun x => if x.node == t.node then { x with xlate := n.node, xlatenr := i }
      else x) (i + 1) ts ns

/-- `checker_xlat_subcircuit_nodes (type, inst, sub)`: the translated nodes of `sub`. -/
def checkerXlatSubcircuitNodes (type inst sub : Definition) : Except Fault (List Node) :=
  xlatNodes sub.nodes 1 type.nodes inst.nodes

/-- The dotted name `checker_subcircuit_node` and `checker_subcircuit_instance` build, the
instance list left out when it is `NULL`. -/
def dottedName (type : String) (instances : Option String) (inst last : String) : String :=
  match instances with
  | some l => type ++ "." ++ l ++ "." ++ inst ++ "." ++ last
  | none => type ++ "." ++ inst ++ "." ++ last

/-- `checker_subcircuit_node`. -/
def checkerSubcircuitNode (type : String) (instances : Option String) (inst node : String) :
    String :=
  dottedName type instances inst node

/-- `checker_subcircuit_instance`. -/
def checkerSubcircuitInstance (type : String) (instances : Option String) (inst base : String) :
    String :=
  dottedName type instances inst base

/-- Modelled from the spec: `strlist::toString (sep)` of `strlist.cpp`, the names of the list
joined by `sep`. -/
def strlistToString (sep : String) (l : List String) : String :=
  sep.intercalate l

/-- `checker_subcircuit_instance_list`: the instance path joined by dots, `NULL` when the list
is `NULL` or empty. -/
def checkerSubcircuitInstanceList (instances : Option (List String)) : Option String :=
  match instances with
  | some (x :: xs) => some (strlistToString "." (x :: xs))
  | _ => none

/-- The name a translated template node gets in a copy (shared by
`checker_copy_subcircuit_nodes` and `checker_copy_circuit_nodes`): a formal node takes the
instance's node in the outermost call (`instances` is `NULL`) and is left blank otherwise,
`gnd` stays, any other node gets the name of `checker_subcircuit_node`. -/
def copyNodeName (type inst : String) (instances : Option String) (n : Node) : Option String :=
  match n.xlate with
  | some x => if instances.isNone then some x else none
  | none =>
    if n.node == some "gnd" then n.node else n.node.map (checkerSubcircuitNode type instances inst)

/-- `checker_copy_subcircuit_nodes`: the nodes of a copy from the translated nodes of the
template line (the C code builds the list reversed and reverses it back). -/
def checkerCopySubcircuitNodes (type inst : Definition) (nodes : List Node)
    (instances : Option String) : List Node :=
  nodes.map fun n => { node := copyNodeName type.instance inst.instance instances n,
                       xlatenr := n.xlatenr }

/-- `checker_get_circuit_node`: node `n` (from 1) of the list; running past its end fails the
assertion or dereferences `NULL`. -/
def checkerGetCircuitNode (nodes : List Node) (n : Nat) : Except Fault Node :=
  match nodes.drop (n - 1) with
  | x :: _ => pure x
  | [] => throw (.assertion "checker_get_circuit_node: root != NULL")

/-- `checker_cleanup_xlat_nodes`. -/
def checkerCleanupXlatNodes (nodes : List Node) : List Node :=
  nodes.map fun n => { n with xlate := none, xlatenr := 0 }

/-- One node of `checker_copy_circuit_nodes`: a blank node is named from node `xlatenr` of the
nested instance line. -/
def fillBlank (type inst : String) (sub : List Node) (instances : Option String) (c : Node) :
    Except Fault Node :=
  if c.node.isNone then
    if c.xlatenr = 0 then throw (.assertion "checker_copy_circuit_nodes: ncopy->xlatenr != 0")
    else do
      let n ← checkerGetCircuitNode sub c.xlatenr
      pure { c with xlatenr := n.xlatenr, node := copyNodeName type inst instances n }
  else pure c

/-- `checker_copy_circuit_nodes (type, inst, sub, copy, instances)`. -/
def checkerCopyCircuitNodes (type inst sub copy : Definition) (instances : Option String) :
    Except Fault Definition := do
  let nodes ← copy.nodes.mapM (fillBlank type.instance inst.instance sub.nodes instances)
  pure { copy with nodes }

/-- Writes the nodes of line `k` of template `t` of the registry. -/
def setBodyNodes (reg : List Definition) (t k : Nat) (f : List Node → List Node) :
    List Definition :=
  reg.modify (fun T => { T with sub := T.sub.modify (fun d => { d with nodes := f d.nodes }) k }) t

/-- `checker_get_subcircuit` as the position of the template in the registry. -/
def subcircuitIndex (reg : List Definition) (d : Definition) : Option Nat :=
  (checkerFindReference d "Type").bind fun v => reg.findIdx? (·.instance == v)

/-- What `checker_copy_subcircuits` leaves: the registry (translation slots), the copies in
reverse order and the instance list `*instances`. -/
abbrev CopyResult := List Definition × List Definition × Option (List String)

/-- Line `k` of template `t` in the loop of `checker_copy_subcircuits`
(`check_netlist.cpp:1171-1220`); `recurse` is the recursive call. -/
def copyLine (recurse : List Definition → Nat → Definition → Option (List String) →
      Except Fault CopyResult)
    (t : Nat) (inst : Definition) (k : Nat) (st : CopyResult) : Except Fault CopyResult := do
  let (reg, root, instances) := st
  let some type := reg[t]? | throw (.nullDeref "checker_copy_subcircuits: type")
  let some d := type.sub[k]? | pure st
  let xnodes ← checkerXlatSubcircuitNodes type inst d
  let reg := setBodyNodes reg t k fun _ => xnodes
  let d := { d with nodes := xnodes }
  let (reg, root, instances) ←
    if d.type = "Sub" then
      match subcircuitIndex reg d with
      | none => throw (.nullDeref "checker_copy_subcircuits: type->sub")
      | some t' => do
        let cur := instances.getD []
        let (reg, copy, _) ← recurse reg t' d (some (cur ++ [inst.instance]))
        let some type := reg[t]? | throw (.nullDeref "checker_copy_subcircuits: type")
        let some d := type.sub[k]? | throw (.nullDeref "checker_copy_subcircuits: def")
        let copy ← copy.mapM fun c =>
          checkerCopyCircuitNodes type inst d c (checkerSubcircuitInstanceList (some cur))
        pure (reg, copy ++ root, some cur)
    else
      let list := checkerSubcircuitInstanceList instances
      let c := { checkerCopySubcircuit d with
        «instance» := checkerSubcircuitInstance type.instance list inst.instance d.instance,
        subcircuit := some type.instance,
        nodes := checkerCopySubcircuitNodes type inst d.nodes list }
      pure (reg, c :: root, instances)
  pure (setBodyNodes reg t k checkerCleanupXlatNodes, root, instances)

/-- `checker_copy_subcircuits (type, inst, instances)` for the template at position `t`;
`fuel` bounds the recursion depth. -/
def checkerCopySubcircuits : Nat → List Definition → Nat → Definition → Option (List String) →
    Except Fault CopyResult
  | 0, _, _, _, _ => throw .outOfFuel
  | fuel + 1, reg, t, inst, instances =>
    match reg[t]? with
    | none => throw (.nullDeref "checker_copy_subcircuits: type")
    | some type => (List.range type.sub.length).foldlM
        (fun st k => copyLine (checkerCopySubcircuits fuel) t inst k st) (reg, [], instances)

/-- The loop of `checker_expand_subcircuits`: `prev` holds the lines before the cursor in
reverse order, `cur` the rest. A `Sub` line is removed and its copies are put at the head of
the list; the scan then resumes at the line that was the head before them. -/
def expandLoop (fuel : Nat) :
    Nat → List Definition → List Definition → List Definition →
      Except Fault (List Definition × List Definition)
  | 0, _, _, _ => throw .outOfFuel
  | _ + 1, reg, prev, [] => pure (reg, prev.reverse)
  | steps + 1, reg, prev, d :: next =>
    if d.type = "Sub" then
      match subcircuitIndex reg d with
      | none => throw (.nullDeref "checker_copy_subcircuits: type->sub")
      | some t => do
        let (reg, copy, _) ← checkerCopySubcircuits fuel reg t d none
        if copy.isEmpty then expandLoop fuel steps reg prev next
        else expandLoop fuel steps reg copy.reverse (prev.reverse ++ next)
    else expandLoop fuel steps reg (d :: prev) next

/-- `checker_expand_subcircuits (root)`: the registry after the expansion and the flattened
list; `fuel` bounds both the recursion depth and the number of loop steps. -/
def checkerExpandSubcircuits (fuel : Nat) (reg root : List Definition) :
    Except Fault (List Definition × List Definition) :=
  expandLoop fuel fuel reg [] root

end QucsNetlist
