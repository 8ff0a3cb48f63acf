import QucsNetlist.Netlist
import Mathlib.Logic.Relation

/-! # Cycles of subcircuit instantiation (`check_netlist.cpp:1224-1326`)

`checker_validate_sub_cycles` searches the templates a template instantiates depth first,
keeping the path in `deps`: a template already on it is a cycle. A per-call list `checked`
skips sibling `Sub` lines naming a template searched before, the path is restored from its
copy after a branch without errors only, and the errors of all branches add up.
`checker_validate_subcircuits` runs it from every `Sub` line of a list and stores the result of
each in the static `checker_sub_cycles`.
-/

namespace QucsNetlist

/-- The `Type` reference of a `Sub` line. -/
def subReference (d : Definition) : Option String :=
  if d.type = "Sub" then checkerFindReference d "Type" else none

/-- The body loop of `checker_validate_sub_cycles` (`check_netlist.cpp:1246-1276`); `recurse`
is the recursive call. A `Type` naming no template makes the C code read `sub->instance`
through `NULL`. -/
def subCyclesLoop (reg : List Definition)
    (recurse : Definition → String → List String →
      Except Fault (Nat × List String × List Diagnostic)) :
    List Definition → List String → List String → Nat → List Diagnostic →
      Except Fault (Nat × List String × List Diagnostic)
  | [], deps, _, errors, log => pure (errors, deps, log)
  | d :: ds, deps, checked, errors, log =>
    match subReference d with
    | none => subCyclesLoop reg recurse ds deps checked errors log
    | some v =>
      if v ∈ checked then subCyclesLoop reg recurse ds deps checked errors log
      else match checkerFindSubcircuit reg v with
        | none => throw (.nullDeref "checker_validate_sub_cycles: sub->instance")
        | some sub => do
          let (error, deps', log') ← recurse sub sub.instance deps
          if error ≠ 0 then
            subCyclesLoop reg recurse ds deps' (checked ++ [v]) (errors + error) (log ++ log')
          else subCyclesLoop reg recurse ds deps (checked ++ [v]) errors (log ++ log')

/-- `checker_validate_sub_cycles (root, type, instance, deps)`: the error count, the path list
`*deps` it leaves and the messages; `fuel` bounds the recursion depth. -/
def checkerValidateSubCycles (reg : List Definition) :
    Nat → Definition → String → String → List String →
      Except Fault (Nat × List String × List Diagnostic)
  | 0, _, _, _, _ => throw .outOfFuel
  | fuel + 1, root, type, inst, deps =>
    if type ∈ deps then pure (1, deps, [.cyclicSubcircuit type inst deps])
    else subCyclesLoop reg (fun sub t d => checkerValidateSubCycles reg fuel sub t inst d)
      root.sub (deps ++ [type]) [] 0 []

/-- One line of `checker_validate_subcircuits`: its errors, the value it stores in
`checker_sub_cycles` (a `Sub` line naming a template) and its messages. -/
def validateSubcircuit (reg : List Definition) (fuel : Nat) (d : Definition) :
    Except Fault (Nat × Option Nat × List Diagnostic) :=
  if d.type = "Sub" then
    match checkerFindReference d "Type" with
    | none => pure (1, none, [.notValidReference d.line "Type" d.type d.instance])
    | some v => match checkerFindSubcircuit reg v with
      | none => pure (1, none, [.noSuchSubcircuit d.line v d.type d.instance])
      | some sub => do
        let n1 := checkerCountNodes d
        let n2 := checkerCountNodes sub
        let arity : Nat × List Diagnostic := if n1 ≠ n2 then
          (1, [.subcircuitNodes d.line sub.instance n2 d.type d.instance n1]) else (0, [])
        let (err, _, log) ← checkerValidateSubCycles reg fuel sub sub.instance d.instance []
        pure (arity.1 + err, some err, arity.2 ++ log)
  else pure (0, none, [])

/-- `checker_validate_subcircuits`: errors, the last value stored in `checker_sub_cycles`
(none if no line stored one) and the messages. -/
def checkerValidateSubcircuits (reg : List Definition) (fuel : Nat) :
    List Definition → Except Fault (Nat × Option Nat × List Diagnostic)
  | [] => pure (0, none, [])
  | d :: ds => do
    let here ← validateSubcircuit reg fuel d
    let rest ← checkerValidateSubcircuits reg fuel ds
    pure (here.1 + rest.1, rest.2.1.or here.2.1, here.2.2 ++ rest.2.2)

/-! ### The instantiation graph -/

open Relation

/-- The instantiation graph on template names: `u → v` when the template `u` names `v` in
the `Type` of a `Sub` line of its body. -/
def SubEdge (reg : List Definition) (u v : String) : Prop :=
  ∃ T, checkerFindSubcircuit reg u = some T ∧ ∃ d ∈ T.sub, subReference d = some v

/-- A cycle of the instantiation graph reachable from `t`. -/
def CycleFrom (reg : List Definition) (t : String) : Prop :=
  ∃ w, ReflTransGen (SubEdge reg) t w ∧ TransGen (SubEdge reg) w w

/-- Every `Sub` line of a template reachable from `t` names a template. -/
def ResolvesFrom (reg : List Definition) (t : String) : Prop :=
  ∀ u v, ReflTransGen (SubEdge reg) t u → SubEdge reg u v → (checkerFindSubcircuit reg v).isSome

section Graph

variable {reg : List Definition}

theorem checkerFindSubcircuit_instance {n : String} {T : Definition}
    (h : checkerFindSubcircuit reg n = some T) : T.instance = n := by
  simpa [checkerFindSubcircuit] using List.find?_some h

theorem checkerFindSubcircuit_mem {n : String} {T : Definition}
    (h : checkerFindSubcircuit reg n = some T) : T ∈ reg :=
  List.mem_of_find?_eq_some h

theorem subEdge_of_mem {t v : String} {T d : Definition} (hT : checkerFindSubcircuit reg t = some T)
    (hd : d ∈ T.sub) (hv : subReference d = some v) : SubEdge reg t v :=
  ⟨T, hT, d, hd, hv⟩

theorem cycleFrom_head {t v : String} (e : SubEdge reg t v) (h : CycleFrom reg v) :
    CycleFrom reg t :=
  let ⟨w, hr, hc⟩ := h
  ⟨w, .head e hr, hc⟩

theorem resolvesFrom_head {t v : String} (e : SubEdge reg t v) (h : ResolvesFrom reg t) :
    ResolvesFrom reg v :=
  fun u w hu huw => h u w (.head e hu) huw

/-- A rank on template names that every `Sub` line of a body lowers leaves no cycle. -/
theorem acyclic_of_rank (f : String → Nat)
    (h : ∀ T ∈ reg, ∀ d ∈ T.sub, ∀ v ∈ subReference d, f v < f T.instance) :
    ∀ w, ¬ TransGen (SubEdge reg) w w := by
  have hedge : ∀ u v, SubEdge reg u v → f v < f u := by
    rintro u v ⟨T, hT, d, hd, hv⟩
    rw [← checkerFindSubcircuit_instance hT]
    exact h T (checkerFindSubcircuit_mem hT) d hd v hv
  have hpath : ∀ u v, TransGen (SubEdge reg) u v → f v < f u := by
    intro u v huv
    induction huv with
    | single e => exact hedge _ _ e
    | tail _ e ih => exact lt_trans (hedge _ _ e) ih
  exact fun w hw => lt_irrefl _ (hpath w w hw)

end Graph

/-! ### The body loop -/

section Loop

variable {reg : List Definition}
  {recurse : Definition → String → List String → Except Fault (Nat × List String × List Diagnostic)}

theorem subCyclesLoop_errors_le {ds : List Definition} {deps checked : List String} {errors : Nat}
    {log : List Diagnostic} {r : Nat × List String × List Diagnostic}
    (h : subCyclesLoop reg recurse ds deps checked errors log = .ok r) : errors ≤ r.1 := by
  induction ds generalizing deps checked errors log with
  | nil => simp only [subCyclesLoop, except_pure, Except.ok.injEq] at h; rw [← h]
  | cons d ds ih =>
    simp only [subCyclesLoop] at h
    split at h
    · exact ih h
    · split at h
      · exact ih h
      · split at h
        · cases h
        · obtain ⟨⟨e, d', l'⟩, -, h⟩ := bind_eq_ok.mp h
          split at h
          · have := ih h; omega
          · exact ih h

/-- A loop that ends without errors searched every new `Sub` line from the same path, and
each search found no error. -/
theorem subCyclesLoop_zero {ds : List Definition} {deps checked : List String}
    {log : List Diagnostic} {r : Nat × List String × List Diagnostic}
    (h : subCyclesLoop reg recurse ds deps checked 0 log = .ok r) (h0 : r.1 = 0) :
    ∀ d ∈ ds, ∀ v, subReference d = some v → v ∉ checked →
      ∃ sub, checkerFindSubcircuit reg v = some sub ∧
        ∃ r', recurse sub sub.instance deps = .ok r' ∧ r'.1 = 0 := by
  induction ds generalizing checked log with
  | nil => simp
  | cons d ds ih =>
    simp only [subCyclesLoop] at h
    intro d' hd' v hv hvc
    split at h
    case h_1 hnone =>
      rcases List.mem_cons.mp hd' with rfl | hd'
      · simp_all
      · exact ih h d' hd' v hv hvc
    case h_2 w hw =>
      split at h
      case isTrue hwc =>
        rcases List.mem_cons.mp hd' with rfl | hd'
        · simp_all
        · exact ih h d' hd' v hv hvc
      case isFalse hwc =>
        split at h
        · cases h
        case h_2 sub hsub =>
          obtain ⟨⟨e, d'', l'⟩, hrec, h⟩ := bind_eq_ok.mp h
          split at h
          case isTrue he => have := subCyclesLoop_errors_le h; simp at this; omega
          case isFalse he =>
            by_cases hvw : v = w
            · subst hvw
              exact ⟨sub, hsub, _, hrec, by simpa using he⟩
            · rcases List.mem_cons.mp hd' with rfl | hd'
              · simp_all
              · exact ih h d' hd' v hv (by simp [hvc, hvw])

/-- Soundness of the loop: starting from the path `P0` without errors, a nonzero count means
some search from `P0` reported an error. -/
theorem subCyclesLoop_sound {Good : Prop} {P0 : List String} {ds : List Definition}
    (hrec : ∀ d ∈ ds, ∀ v sub r, subReference d = some v → checkerFindSubcircuit reg v = some sub →
      recurse sub sub.instance P0 = .ok r → r.1 ≠ 0 → Good)
    {deps checked : List String} {errors : Nat} {log : List Diagnostic}
    {r : Nat × List String × List Diagnostic}
    (h : subCyclesLoop reg recurse ds deps checked errors log = .ok r)
    (hdeps : errors = 0 → deps = P0) (hgood : errors ≠ 0 → Good) : r.1 ≠ 0 → Good := by
  induction ds generalizing deps checked errors log with
  | nil =>
    simp only [subCyclesLoop, except_pure, Except.ok.injEq] at h
    rw [← h]; exact hgood
  | cons d ds ih =>
    have hrec' := fun d hd => hrec d (List.mem_cons_of_mem _ hd)
    simp only [subCyclesLoop] at h
    split at h
    · exact ih hrec' h hdeps hgood
    · split at h
      · exact ih hrec' h hdeps hgood
      case isFalse v hv hvc =>
        split at h
        · cases h
        case h_2 sub hsub =>
          obtain ⟨⟨e, d', l'⟩, hr, h⟩ := bind_eq_ok.mp h
          split at h
          case isTrue he =>
            refine ih hrec' h (by omega) fun _ => ?_
            by_cases h0 : errors = 0
            · exact hrec d (List.mem_cons_self _ _) v sub _ hv hsub (hdeps h0 ▸ hr) he
            · exact hgood h0
          case isFalse => exact ih hrec' h hdeps hgood

/-- The loop returns when every search it starts returns and keeps the path it was given. -/
theorem subCyclesLoop_ok {P0 : List String} {ds : List Definition}
    (hrec : ∀ d ∈ ds, ∀ v sub deps, subReference d = some v →
      checkerFindSubcircuit reg v = some sub → P0 ⊆ deps →
        ∃ r, recurse sub sub.instance deps = .ok r ∧ deps ⊆ r.2.1)
    (hfind : ∀ d ∈ ds, ∀ v, subReference d = some v → (checkerFindSubcircuit reg v).isSome)
    {deps checked : List String} {errors : Nat} {log : List Diagnostic} (hdeps : P0 ⊆ deps) :
    ∃ r, subCyclesLoop reg recurse ds deps checked errors log = .ok r ∧ deps ⊆ r.2.1 := by
  induction ds generalizing deps checked errors log with
  | nil => exact ⟨_, rfl, fun _ h => h⟩
  | cons d ds ih =>
    have hrec' := fun d hd => hrec d (List.mem_cons_of_mem _ hd)
    have hfind' := fun d hd => hfind d (List.mem_cons_of_mem _ hd)
    simp only [subCyclesLoop]
    split
    · exact ih hrec' hfind' hdeps
    · split
      · exact ih hrec' hfind' hdeps
      case isFalse v hv hvc =>
        obtain ⟨sub, hsub⟩ := Option.isSome_iff_exists.mp (hfind d (List.mem_cons_self _ _) v hv)
        obtain ⟨⟨e, d', l'⟩, hr, hsup⟩ := hrec d (List.mem_cons_self _ _) v sub deps hv hsub hdeps
        simp only [hsub, hr, ok_bind]
        split
        · obtain ⟨r, h, hr'⟩ := ih hrec' hfind' fun _ hx => hsup (hdeps hx)
          exact ⟨r, h, fun _ hx => hr' (hsup hx)⟩
        · exact ih hrec' hfind' hdeps

end Loop

/-! ### The search -/

/-- The templates of the registry whose name is not yet on the path `P`. -/
def pathRoom (reg : List Definition) (P : List String) : Nat :=
  reg.countP fun T => T.instance ∉ P

/-- Every `Sub` line of every template names a template. -/
def AllResolve (reg : List Definition) : Prop :=
  ∀ T ∈ reg, ∀ d ∈ T.sub, (subReference d).all fun v => (checkerFindSubcircuit reg v).isSome

instance (reg : List Definition) : Decidable (AllResolve reg) :=
  inferInstanceAs (Decidable (∀ T ∈ reg, ∀ d ∈ T.sub,
    (subReference d).all fun v => (checkerFindSubcircuit reg v).isSome))

section Search

variable {reg : List Definition}

theorem countP_lt_countP {α : Type} {p q : α → Bool} {l : List α} (h : ∀ x ∈ l, p x → q x)
    {a : α} (ha : a ∈ l) (hq : q a) (hp : ¬ p a) : l.countP p < l.countP q := by
  induction l with
  | nil => cases ha
  | cons b l ih =>
    have hle := List.countP_mono_left fun x hx => h x (List.mem_cons_of_mem b hx)
    rcases List.mem_cons.mp ha with rfl | ha
    · simp [List.countP_cons, hp, hq]; omega
    · have := ih (fun x hx => h x (List.mem_cons_of_mem b hx)) ha
      simp only [List.countP_cons]
      by_cases hb : p b <;> simp [hb, h b (List.mem_cons_self b l)] <;> omega

theorem pathRoom_anti {P P' : List String} (h : P ⊆ P') : pathRoom reg P' ≤ pathRoom reg P :=
  List.countP_mono_left fun T _ hT => by simp only [decide_eq_true_eq] at hT ⊢; exact fun hP => hT (h hP)

theorem pathRoom_lt {P : List String} {t : String} {T : Definition} (ht : t ∉ P) (hT : T ∈ reg)
    (hTt : T.instance = t) : pathRoom reg (P ++ [t]) < pathRoom reg P :=
  countP_lt_countP (fun x _ hx => by simp_all) hT (by simp [hTt, ht]) (by simp [hTt])

theorem pathRoom_le {P : List String} : pathRoom reg P ≤ reg.length := List.countP_le_length _

theorem resolvesFrom_of_allResolve (h : AllResolve reg) (t : String) : ResolvesFrom reg t := by
  rintro _ v _ ⟨T, hT, d, hd, hv⟩
  simpa [hv] using h T (checkerFindSubcircuit_mem hT) d hd

theorem checkerValidateSubCycles_of_mem {fuel : Nat} {root : Definition} {type inst : String}
    {deps : List String} (h : type ∈ deps) :
    checkerValidateSubCycles reg (fuel + 1) root type inst deps =
      .ok (1, deps, [.cyclicSubcircuit type inst deps]) := by
  simp [checkerValidateSubCycles, h]

theorem checkerValidateSubCycles_of_not_mem {fuel : Nat} {root : Definition} {type inst : String}
    {deps : List String} (h : type ∉ deps) :
    checkerValidateSubCycles reg (fuel + 1) root type inst deps =
      subCyclesLoop reg (fun sub t d => checkerValidateSubCycles reg fuel sub t inst d)
        root.sub (deps ++ [type]) [] 0 [] := by
  simp [checkerValidateSubCycles, h]

/-- A search from `t` along the path `P` that reports no error meets no name of `P` and no
cycle among the templates reachable from `t`. -/
theorem checkerValidateSubCycles_zero {fuel : Nat} {root : Definition} {t inst : String}
    {P : List String} {r : Nat × List String × List Diagnostic}
    (hroot : checkerFindSubcircuit reg t = some root)
    (h : checkerValidateSubCycles reg fuel root t inst P = .ok r) (h0 : r.1 = 0) :
    ∀ w, ReflTransGen (SubEdge reg) t w → w ∉ P ∧ ¬ TransGen (SubEdge reg) w w := by
  induction fuel generalizing root t P r with
  | zero => cases h
  | succ fuel ih =>
    by_cases ht : t ∈ P
    · rw [checkerValidateSubCycles_of_mem ht] at h; cases h; simp at h0
    rw [checkerValidateSubCycles_of_not_mem ht] at h
    have hchild : ∀ v, SubEdge reg t v → ∀ w, ReflTransGen (SubEdge reg) v w →
        w ∉ P ++ [t] ∧ ¬ TransGen (SubEdge reg) w w := by
      rintro v ⟨T, hT, d, hd, hdv⟩ w hw
      obtain rfl : T = root := Option.some.inj (hT.symm.trans hroot)
      obtain ⟨sub, hsub, r', hr', hr0⟩ := subCyclesLoop_zero h h0 d hd v hdv (List.not_mem_nil v)
      rw [checkerFindSubcircuit_instance hsub] at hr'
      exact ih hsub hr' hr0 w hw
    intro w hw
    rcases hw.cases_head with rfl | ⟨v, htv, hvw⟩
    · refine ⟨ht, fun hc => ?_⟩
      obtain ⟨v, htv, hvt⟩ := TransGen.head'_iff.mp hc
      simpa using (hchild v htv _ hvt).1
    · have := hchild v htv w hvw
      exact ⟨fun hw => this.1 (List.mem_append_left _ hw), this.2⟩

/-- Along a path whose names all reach `t`, an error reported by the search from `t` is a
cycle reachable from `t`: the first error is met while the path is still exact. -/
theorem checkerValidateSubCycles_sound {fuel : Nat} {root : Definition} {t inst : String}
    {P : List String} {r : Nat × List String × List Diagnostic}
    (hroot : checkerFindSubcircuit reg t = some root) (hP : ∀ p ∈ P, TransGen (SubEdge reg) p t)
    (h : checkerValidateSubCycles reg fuel root t inst P = .ok r) (hr : r.1 ≠ 0) :
    CycleFrom reg t := by
  induction fuel generalizing root t P r with
  | zero => cases h
  | succ fuel ih =>
    by_cases ht : t ∈ P
    · exact ⟨t, .refl, hP t ht⟩
    rw [checkerValidateSubCycles_of_not_mem ht] at h
    refine subCyclesLoop_sound ?_ h (fun _ => (rfl : P ++ [t] = P ++ [t])) (fun h => absurd rfl h) hr
    intro d hd v sub r' hv hsub hr' hne
    have e : SubEdge reg t v := subEdge_of_mem hroot hd hv
    rw [checkerFindSubcircuit_instance hsub] at hr'
    refine cycleFrom_head e (ih hsub (fun p hp => ?_) hr' hne)
    rcases List.mem_append.mp hp with hp | hp
    · exact (hP p hp).tail e
    · rw [List.mem_singleton.mp hp]; exact .single e

/-- The search returns, and only lengthens the path, when every `Sub` line it can reach names
a template and the fuel exceeds the templates not yet on the path. -/
theorem checkerValidateSubCycles_ok {fuel : Nat} {root : Definition} {t inst : String}
    {P : List String} (hroot : checkerFindSubcircuit reg t = some root)
    (hres : ResolvesFrom reg t) (hfuel : pathRoom reg P < fuel) :
    ∃ r, checkerValidateSubCycles reg fuel root t inst P = .ok r ∧ P ⊆ r.2.1 := by
  induction fuel generalizing root t P with
  | zero => omega
  | succ fuel ih =>
    by_cases ht : t ∈ P
    · exact ⟨_, checkerValidateSubCycles_of_mem ht, fun _ h => h⟩
    rw [checkerValidateSubCycles_of_not_mem ht]
    have hlt := pathRoom_lt ht (checkerFindSubcircuit_mem hroot)
      (checkerFindSubcircuit_instance hroot)
    have hloop : ∃ r, subCyclesLoop reg (fun sub t d => checkerValidateSubCycles reg fuel sub t inst d)
        root.sub (P ++ [t]) [] 0 [] = .ok r ∧ P ++ [t] ⊆ r.2.1 := by
      refine subCyclesLoop_ok (fun d hd v sub deps hv hsub hdeps => ?_)
        (fun d hd v hv => hres t v .refl (subEdge_of_mem hroot hd hv)) (List.Subset.refl _)
      have e := subEdge_of_mem hroot hd hv
      have : pathRoom reg deps ≤ pathRoom reg (P ++ [t]) := pathRoom_anti hdeps
      rw [checkerFindSubcircuit_instance hsub]
      exact ih hsub (resolvesFrom_head e hres) (by omega)
    obtain ⟨r, h, hsub⟩ := hloop
    exact ⟨r, h, fun x hx => hsub (List.mem_append_left _ hx)⟩

end Search

/-- The search from a template, with an empty path and enough fuel, returns, and reports an
error exactly when a cycle of the instantiation graph is reachable from the template. -/
theorem validate_sub_cycles_iff_cycle (reg : List Definition) (T : Definition) (inst : String)
    (hT : checkerFindSubcircuit reg T.instance = some T) (hres : ResolvesFrom reg T.instance)
    (fuel : Nat) (hfuel : reg.length < fuel) :
    ∃ r, checkerValidateSubCycles reg fuel T T.instance inst [] = .ok r ∧
      (r.1 ≠ 0 ↔ CycleFrom reg T.instance) := by
  obtain ⟨r, h, -⟩ : ∃ r, checkerValidateSubCycles reg fuel T T.instance inst [] = .ok r ∧
      [] ⊆ r.2.1 := checkerValidateSubCycles_ok hT hres (lt_of_le_of_lt pathRoom_le hfuel)
  refine ⟨r, h, fun hr => checkerValidateSubCycles_sound hT (by simp) h hr, ?_⟩
  rintro ⟨w, hw, hc⟩ h0
  exact (checkerValidateSubCycles_zero hT h h0 w hw).2 hc

/-- Two templates instantiating each other. -/
def mutualPair : List Definition :=
  [{ type := "Def", «instance» := "A",
     sub := [{ type := "Sub", «instance» := "y", pairs := [{ key := "Type", value := { ident := "B" } }], sub := [] }] },
   { type := "Def", «instance» := "B",
     sub := [{ type := "Sub", «instance» := "z", pairs := [{ key := "Type", value := { ident := "A" } }], sub := [] }] }]

theorem mutual_pair_search :
    ∃ r, checkerValidateSubCycles mutualPair 3 mutualPair[0] mutualPair[0].instance "x" [] = .ok r ∧
      (r.1 ≠ 0 ↔ CycleFrom mutualPair mutualPair[0].instance) :=
  validate_sub_cycles_iff_cycle mutualPair mutualPair[0] "x" rfl
    (resolvesFrom_of_allResolve (by decide) _) 3 (by decide)

end QucsNetlist
