import Mathlib.Data.List.Basic

/-! # Netlist lines and their lookups (`check_netlist.cpp`)

The parser hands the checker `definition_root`, a linked list of `definition_t` lines
(`TYPE:instance node ... key="value" ...`, actions with a leading dot), `Def` lines carrying
their body in `sub`. Linked lists become `List`, a `NULL` pointer `none`. The structures of
`check_netlist.h` are not under `src/`; their fields are those `check_netlist.cpp` reads and
writes. The lookups of `check_netlist.cpp:56-445` follow the data.
-/

namespace QucsNetlist

/-- Modelled from the spec: the `eqn::TAG_*` variable tags the resolver writes into
`value_t::var` (`equation.h` is not under `src/`). -/
inductive Tag where
  | none
  | double
  | vector
  deriving Repr, DecidableEq, Inhabited

/-- `value_t`: a number with its unit scale and unit, or an identifier. -/
structure Value where
  ident : Option String := none
  value : Float := 0
  unit : Option String := none
  scale : Option String := none
  var : Tag := .none
  subst : Bool := false
  deriving Repr, Inhabited

/-- `pair_t`: a key and its value chain, `value` its head and `rest` the values linked
after it by `value->next`. -/
structure Pair where
  key : String
  value : Value
  rest : List Value := []
  deriving Repr, Inhabited

/-- `node_t`. The name is `none` only in a copy's node left blank for the enclosing
expansion; `xlate`/`xlatenr` is the translation slot of a template node. -/
structure Node where
  node : Option String
  xlate : Option String := none
  xlatenr : Nat := 0
  deriving Repr, DecidableEq, Inhabited

/-- Modelled from the spec: `property_t` of `check_netlist.h` with the tests `PROP_IS_VAL`,
`PROP_IS_INT`, `PROP_IS_LST` and `PROP_HAS_RANGE` as fields. -/
structure Property where
  key : String
  isVal : Bool
  isInt : Bool := false
  isLst : Bool := false
  range : Option (Float × Float) := none
  deriving Repr, Inhabited

/-- Modelled from the spec: the node requirement of a catalog entry, a fixed count or
`PROP_NODES` (at least one node). -/
inductive NodeCount where
  | exactly (n : Nat)
  | atLeastOne
  deriving Repr, DecidableEq, Inhabited

/-- Modelled from the spec: `define_t`, one entry of the catalog
`qucs_definition_available` of `qucsdefs.h`. -/
structure Define where
  type : String
  action : Bool
  nodes : NodeCount
  substrate : Bool := false
  nonlinear : Bool := false
  required : List Property := []
  optional : List Property := []
  deriving Repr, Inhabited

/-- `definition_t`: one netlist line with the annotations the checker fills in. -/
structure Definition where
  type : String
  «instance» : String
  line : Nat := 0
  action : Bool := false
  nodes : List Node := []
  pairs : List Pair := []
  sub : List Definition := []
  define : Option Define := none
  nonlinear : Bool := false
  substrate : Bool := false
  nodeset : Bool := false
  duplicate : Bool := false
  copy : Bool := false
  ncount : Nat := 0
  subcircuit : Option String := none
  deriving Repr, Inhabited

/-- How a run stops without returning: a `NULL` dereference, a failed `assert`, or a
recursion deeper than the fuel the model was given. -/
inductive Fault where
  | nullDeref (site : String)
  | assertion (site : String)
  | outOfFuel
  deriving Repr, DecidableEq

/-- The `LOG_ERROR` messages of the checker, one constructor per format string. -/
inductive Diagnostic where
  /-- `line %d: checker error, invalid definition type `%s'` -/
  | invalidType (line : Nat) (type : String)
  /-- `line %d: checker error, at least 1 node required in `%s:%s', found %d` -/
  | nodesAtLeastOne (line : Nat) (type inst : String) (found : Nat)
  /-- `line %d: checker error, %d node(s) required in `%s:%s', found %d` -/
  | nodesRequired (line : Nat) (required : Nat) (type inst : String) (found : Nat)
  /-- `line %d: checker error, required property `%s' occurred %dx in `%s:%s'` -/
  | requiredOccurred (line : Nat) (key : String) (n : Nat) (type inst : String)
  /-- `line %d: checker error, optional property `%s' occurred %dx in `%s:%s'` -/
  | optionalOccurred (line : Nat) (key : String) (n : Nat) (type inst : String)
  /-- `line %d: checker error, extraneous property `%s' is invalid in `%s:%s'` -/
  | extraneous (line : Nat) (key type inst : String)
  /-- `checker error, value of `%s' needs to be a single value in `%s:%s', no lists possible` -/
  | notSingle (key type inst : String)
  /-- `checker error, value of `%s' (%g) is out of range [%g,%g] in `%s:%s'` -/
  | outOfRange (key : String) (value lo hi : Float) (type inst : String)
  /-- `checker error, value of `%s' (%g) needs to be an integer in `%s:%s'` -/
  | notInteger (key : String) (value : Float) (type inst : String)
  /-- `checker error, value of `%s' (%g) needs to be an identifier in `%s:%s'` -/
  | notIdentifier (key : String) (value : Float) (type inst : String)
  /-- `line %d: checker error, not a valid `%s' property found in `%s:%s'` -/
  | notValidReference (line : Nat) (key type inst : String)
  /-- `line %d: checker error, `%s' is not a valid `%s' property as used in `%s:%s'` -/
  | notValidSpecial (line : Nat) (ident key type inst : String)
  /-- `line %d: checker error, no such variable `%s' used in a `%s:%s' property` -/
  | noSuchVariable (line : Nat) (ident type inst : String)
  /-- `checker error, found %d definitions of `%s:%s'` -/
  | definitions (n : Nat) (type inst : String)
  /-- `line %d: checker error, no such substrate `%s' found as specified in `%s:%s'` -/
  | noSuchSubstrate (line : Nat) (ident type inst : String)
  /-- `line %d: checker error, no such subcircuit `%s' found as referred in `%s:%s'` -/
  | noSuchSubcircuit (line : Nat) (ident type inst : String)
  /-- `line %d: checker error, subcircuit type `%s' requires %d nodes in `%s:%s', found %d` -/
  | subcircuitNodes (line : Nat) (sub : String) (n2 : Nat) (type inst : String) (n1 : Nat)
  /-- `checker error, cyclic definition of `%s:%s' detected, involves: %s` -/
  | cyclicSubcircuit (type inst : String) (deps : List String)
  /-- `line %d: checker error, no such node `%s' found as referenced by `%s:%s'` -/
  | noSuchNode (line : Nat) (node : Option String) (type inst : String)
  /-- `line %d: checker error, the node `%s' is not uniquely defined by `%s:%s'` -/
  | nodeNotUnique (line : Nat) (node : Option String) (type inst : String)
  /-- `checker error, no actions .XX defined` -/
  | noActions
  /-- `checker error, %d `Pac' definitions found, at least 1 required` -/
  | pacRequired (n : Nat)
  /-- `checker error, the .DC action is defined %dx, single or none required` -/
  | dcDefined (n : Nat)
  /-- `checker error, a .DC action is required for this circuit definition (accounted %d
  non-linearities)` -/
  | dcRequired (c : Nat)
  /-- `line %d: checker error, definition `%s:%s' refers to itself` -/
  | refersToItself (line : Nat) (type inst : String)
  /-- `line %d: checker error, no such action `%s' found as referred in `%s:%s'` -/
  | noSuchAction (line : Nat) (ident type inst : String)
  /-- `checker error, cyclic definition of `%s' detected, involves: %s` -/
  | cyclicSweep (inst : String) (deps : List String)
  /-- `line %d: checker error, `%s' definitions with duplicate `%s=%d' property found:
  `%s:%s' and `%s:%s'` -/
  | duplicatePort (line : Nat) (type key : String) (p : Int) (inst type2 inst2 : String)
  /-- `line %d: checker error, required property `%s' not found in `%s:%s'` -/
  | requiredNotFound (line : Nat) (key type inst : String)
  /-- `line %d: checker error, value of `%s' needs to be a single constant value in `%s:%s',
  no lists possible` -/
  | notConstant (line : Nat) (key type inst : String)
  deriving Repr

/-! ### The error monad -/

@[simp] theorem except_pure {ε α : Type} (a : α) : (pure a : Except ε α) = .ok a := rfl

@[simp] theorem except_throw {ε α : Type} (e : ε) : (throw e : Except ε α) = .error e := rfl

@[simp] theorem ok_bind {ε α β : Type} (a : α) (f : α → Except ε β) :
    (Except.ok a >>= f) = f a := rfl

@[simp] theorem error_bind {ε α β : Type} (e : ε) (f : α → Except ε β) :
    (Except.error e >>= f) = .error e := rfl

theorem bind_eq_ok {ε α β : Type} {x : Except ε α} {f : α → Except ε β} {b : β} :
    (x >>= f) = .ok b ↔ ∃ a, x = .ok a ∧ f a = .ok b := by
  cases x <;> simp

section Loops

variable {α β ε : Type} {f g : β → α → Except ε β}

/-- A loop that fails failed in one of its steps. -/
theorem foldlM_error_mem {e : ε} :
    ∀ {l : List α} {b : β}, l.foldlM f b = .error e → ∃ x ∈ l, ∃ b', f b' x = .error e
  | [], _, h => by cases h
  | x :: l, b, h => by
    rw [List.foldlM_cons] at h
    cases hx : f b x with
    | error e' =>
      rw [hx] at h; cases h
      exact ⟨x, List.mem_cons_self x l, b, hx⟩
    | ok b' =>
      rw [hx] at h
      obtain ⟨y, hy, b'', h'⟩ := foldlM_error_mem h
      exact ⟨y, List.mem_cons_of_mem x hy, b'', h'⟩

/-- A loop with a step that always fails with `e`, and no step failing otherwise, fails
with `e`. -/
theorem foldlM_eq_error {e : ε} :
    ∀ {l : List α} {b : β}, (∀ b x, x ∈ l → ∀ e', f b x = .error e' → e' = e) →
      (∃ x ∈ l, ∀ b, f b x = .error e) → l.foldlM f b = .error e
  | [], _, _, ⟨_, hx, _⟩ => by cases hx
  | x :: l, b, hf, ⟨y, hy, hye⟩ => by
    rw [List.foldlM_cons]
    cases hx : f b x with
    | error e' => rw [hf b x (List.mem_cons_self x l) e' hx]; rfl
    | ok b' =>
      have hyl : y ∈ l := by
        rcases List.mem_cons.mp hy with rfl | hy
        · rw [hye b] at hx; cases hx
        · exact hy
      exact foldlM_eq_error (fun b x hx => hf b x (List.mem_cons_of_mem _ hx)) ⟨y, hyl, hye⟩

/-- Loops whose steps agree on the list agree. -/
theorem foldlM_congr_mem :
    ∀ {l : List α} {b : β}, (∀ b, ∀ x ∈ l, f b x = g b x) → l.foldlM f b = l.foldlM g b
  | [], _, _ => rfl
  | x :: l, b, h => by
    simp only [List.foldlM_cons, h b x (List.mem_cons_self x l)]
    congr 1; funext b'
    exact foldlM_congr_mem fun b y hy => h b y (List.mem_cons_of_mem x hy)

/-- A map whose every step succeeds succeeds with the list of the results. -/
theorem mapM_length {φ : α → Except ε β} :
    ∀ {l : List α} {l' : List β}, l.mapM φ = .ok l' → l'.length = l.length
  | [], _, h => by cases h; rfl
  | x :: l, l', h => by
    rw [List.mapM_cons] at h
    obtain ⟨y, -, h⟩ := bind_eq_ok.mp h
    obtain ⟨ys, hys, h⟩ := bind_eq_ok.mp h
    cases h
    exact congrArg Nat.succ (mapM_length hys)

theorem mem_of_mapM {φ : α → Except ε β} :
    ∀ {l : List α} {l' : List β}, l.mapM φ = .ok l' → ∀ y ∈ l', ∃ x ∈ l, φ x = .ok y
  | [], _, h => by cases h; exact fun _ h => absurd h (List.not_mem_nil _)
  | x :: l, l', h => by
    rw [List.mapM_cons] at h
    obtain ⟨y, hy, h⟩ := bind_eq_ok.mp h
    obtain ⟨ys, hys, h⟩ := bind_eq_ok.mp h
    cases h
    intro z hz
    rcases List.mem_cons.mp hz with rfl | hz
    · exact ⟨x, List.mem_cons_self x l, hy⟩
    · obtain ⟨w, hw, hwz⟩ := mem_of_mapM hys z hz
      exact ⟨w, List.mem_cons_of_mem x hw, hwz⟩

theorem mapM_ok {φ : α → Except ε β} {ψ : α → β} :
    ∀ {l : List α}, (∀ x ∈ l, φ x = .ok (ψ x)) → l.mapM φ = .ok (l.map ψ)
  | [], _ => rfl
  | x :: l, h => by
    rw [List.mapM_cons, h x (List.mem_cons_self x l),
      mapM_ok fun y hy => h y (List.mem_cons_of_mem x hy)]
    rfl

end Loops

/-- An error count with the messages logged along with it. -/
structure Report where
  errors : Nat := 0
  log : List Diagnostic := []
  deriving Repr

instance : Append Report := ⟨fun a b => ⟨a.errors + b.errors, a.log ++ b.log⟩⟩

/-- One error and its message. -/
def Report.error (m : Diagnostic) : Report := ⟨1, [m]⟩

/-- An error and its message when `c` holds. -/
def Report.when (c : Bool) (m : Diagnostic) : Report := if c then .error m else {}

/-- The reports of a loop, in order. -/
def Report.concat (rs : List Report) : Report := rs.foldr (· ++ ·) {}

@[simp] theorem Report.append_errors (a b : Report) : (a ++ b).errors = a.errors + b.errors := rfl

@[simp] theorem Report.append_log (a b : Report) : (a ++ b).log = a.log ++ b.log := rfl

@[simp] theorem Report.when_errors (c : Bool) (m : Diagnostic) :
    (Report.when c m).errors = if c then 1 else 0 := by
  cases c <;> rfl

@[simp] theorem Report.when_log (c : Bool) (m : Diagnostic) :
    (Report.when c m).log = if c then [m] else [] := by
  cases c <;> rfl

theorem Report.when_errors_eq_zero {c : Bool} {m : Diagnostic} :
    (Report.when c m).errors = 0 ↔ c = false := by
  cases c <;> simp

theorem Report.mem_concat_log {m : Diagnostic} :
    ∀ {rs : List Report}, m ∈ (Report.concat rs).log ↔ ∃ r ∈ rs, m ∈ r.log
  | [] => iff_of_false (List.not_mem_nil m) fun ⟨_, h, _⟩ => absurd h (List.not_mem_nil _)
  | r :: rs => by
    show m ∈ r.log ++ (Report.concat rs).log ↔ _
    rw [List.mem_append, @Report.mem_concat_log m rs]
    simp only [List.mem_cons, exists_eq_or_imp]

/-- A loop's report counts no error exactly when none of its steps counts one. -/
theorem Report.concat_errors_eq_zero :
    ∀ {rs : List Report}, (Report.concat rs).errors = 0 ↔ ∀ r ∈ rs, r.errors = 0
  | [] => iff_of_true rfl fun _ h => absurd h (List.not_mem_nil _)
  | r :: rs => by
    show r.errors + (Report.concat rs).errors = 0 ↔ _
    rw [Nat.add_eq_zero, @Report.concat_errors_eq_zero rs, List.forall_mem_cons]

/-! ### Lookups -/

/-- `checker_count_nodes (def)`. -/
def checkerCountNodes (d : Definition) : Nat := d.nodes.length

/-- `checker_find_definition`: the catalog entry for a type and action flag. -/
def checkerFindDefinition (available : List Define) (type : String) (action : Bool) :
    Option Define :=
  available.find? fun a => a.type == type && a.action == action

/-- `checker_find_property`: how often `key` occurs among the pairs. -/
def checkerFindProperty (key : String) (pairs : List Pair) : Nat :=
  pairs.countP (·.key == key)

/-- `checker_is_property`: `key` is a required or an optional property of the entry. -/
def checkerIsProperty (available : Define) (key : String) : Bool :=
  available.required.any (·.key == key) || available.optional.any (·.key == key)

/-- The loop of `checker_count_definition` after `count` matches: counts the lines with this
type and instance name and marks every match after the first as a duplicate. -/
def countDefinitionFrom (type inst : String) (count : Nat) :
    List Definition → Nat × List Definition
  | [] => (count, [])
  | d :: ds =>
    if d.type = type ∧ d.instance = inst then
      let r := countDefinitionFrom type inst (count + 1) ds
      (r.1, (if count + 1 > 1 then { d with duplicate := true } else d) :: r.2)
    else
      let r := countDefinitionFrom type inst count ds
      (r.1, d :: r.2)

/-- `checker_count_definition`. -/
def checkerCountDefinition (root : List Definition) (type inst : String) :
    Nat × List Definition :=
  countDefinitionFrom type inst 0 root

/-- The value `checker_find_variable` stops at inside one line: the head value of the first
`key` pair whose identifier is `ident`, if the line has type `type`. -/
def variableOf (type key ident : String) (d : Definition) : Option Value :=
  if d.type = type then
    d.pairs.findSome? fun p => if p.key = key ∧ p.value.ident = some ident then some p.value
      else none
  else none

/-- `checker_find_variable`. -/
def checkerFindVariable (root : List Definition) (type key ident : String) : Option Value :=
  root.findSome? (variableOf type key ident)

/-- Rewrites the first element satisfying `p` (a write through a pointer a search returned). -/
def modifyFirst {α : Type} (p : α → Bool) (f : α → α) : List α → List α
  | [] => []
  | a :: as => if p a then f a :: as else a :: modifyFirst p f as

/-- A write through the value `checker_find_variable` returns. -/
def modifyVariable (root : List Definition) (type key ident : String) (f : Value → Value) :
    List Definition :=
  let pairs (d : Definition) := modifyFirst
    (fun p => p.key == key && p.value.ident == some ident) (fun p => { p with value := f p.value })
    d.pairs
  modifyFirst (fun d => (variableOf type key ident d).isSome) (fun d => { d with pairs := pairs d })
    root

/-- `checker_find_reference`: the identifier of the first `key` pair holding one (every caller
of the C function reads only `->ident` of the value it returns). -/
def checkerFindReference (d : Definition) (key : String) : Option String :=
  d.pairs.findSome? fun p => if p.key = key then p.value.ident else none

/-- `checker_find_prop_value`: the first `key` pair holding a number. -/
def checkerFindPropValue (d : Definition) (key : String) : Option Pair :=
  d.pairs.find? fun p => p.key == key && p.value.ident.isNone

/-- `checker_find_subcircuit`: the first template of `subcircuit_root` named `n`. -/
def checkerFindSubcircuit (reg : List Definition) (n : String) : Option Definition :=
  reg.find? (·.instance == n)

/-- `checker_get_subcircuit`: the template a `Sub` line's `Type` reference names. -/
def checkerGetSubcircuit (reg : List Definition) (d : Definition) : Option Definition :=
  (checkerFindReference d "Type").bind (checkerFindSubcircuit reg)

/-- `checker_count_definitions`: lines with the action flag and, unless `type` is `NULL`, the
type. -/
def checkerCountDefinitions (root : List Definition) (type : Option String) (action : Bool) :
    Nat :=
  root.countP fun d => d.action == action && type.all (· == d.type)

/-- `checker_count_action`: actions with this instance name. -/
def checkerCountAction (root : List Definition) (inst : String) : Nat :=
  root.countP fun d => d.action && d.instance == inst

end QucsNetlist
