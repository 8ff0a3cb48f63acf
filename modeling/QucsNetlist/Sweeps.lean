import QucsNetlist.Checker

/-! # The `Sim` chains of parameter sweeps (`check_netlist.cpp:436-511`)

`checker_validate_para` checks every parameter sweep: its `Sim` property is an identifier that
names an action other than the sweep, exactly one action carries that name, and
`checker_validate_para_cycles` follows the `Sim` references from there. The search appends each
action it passes to `deps` and stops at the first one already there, so it returns after at most
as many levels as there are actions, whatever names repeat. When every sweep names exactly one
action the chain is fixed by the names, and the search reports exactly the chains that come back
to an action they passed.
-/

namespace QucsNetlist

open Relation

/-- The action a line's `Sim` chain goes on to: the `Sim` reference of a sweep. -/
def simTarget (d : Definition) : Option String :=
  if d.type = "SW" then checkerFindReference d "Sim" else none

/-- One link of a `Sim` chain: an action named `u` is a sweep whose `Sim` names `v`. -/
def SimStep (root : List Definition) (u v : String) : Prop :=
  ∃ d ∈ root, d.action = true ∧ d.instance = u ∧ simTarget d = some v

/-- The `Sim` chain from `v` comes back to an action it passed. -/
def SimCycleFrom (root : List Definition) (v : String) : Prop :=
  ∃ w, ReflTransGen (SimStep root) v w ∧ TransGen (SimStep root) w w

/-- The actions of the list whose name is not yet on the path `deps`. -/
def sweepRoom (root : List Definition) (deps : List String) : Nat :=
  root.countP fun d => d.action && decide (d.instance ∉ deps)

theorem eq_of_countP_eq_one {α : Type} {p : α → Bool} {l : List α} (h : l.countP p = 1) :
    ∀ a ∈ l, ∀ b ∈ l, p a → p b → a = b := by
  intro a ha b hb hpa hpb
  rw [List.countP_eq_length_filter, List.length_eq_one] at h
  obtain ⟨x, hx⟩ := h
  have ha' : a ∈ l.filter p := List.mem_filter.mpr ⟨ha, hpa⟩
  have hb' : b ∈ l.filter p := List.mem_filter.mpr ⟨hb, hpb⟩
  rw [hx, List.mem_singleton] at ha' hb'
  exact ha'.trans hb'.symm

/-! ### The loop over the list -/

section Loop

variable {inst : String} {recurse : String → List String → Except Fault Report}

theorem paraCyclesLoop_of_none :
    ∀ {ds : List Definition} {deps : List String},
      (∀ d ∈ ds, ¬ (d.action = true ∧ d.instance = inst)) →
        paraCyclesLoop inst recurse ds deps = .ok {}
  | [], _, _ => rfl
  | d :: ds, _, h => by
    rw [paraCyclesLoop, if_neg (h d (List.mem_cons_self d ds))]
    exact paraCyclesLoop_of_none fun e he => h e (List.mem_cons_of_mem d he)

/-- The loop returns when every recursive call it can make returns. -/
theorem paraCyclesLoop_ok :
    ∀ {ds : List Definition} {deps : List String},
      (∀ v, inst ∉ deps → (∃ d ∈ ds, d.action = true ∧ d.instance = inst) →
        ∃ r, recurse v (deps ++ [inst]) = .ok r) →
      ∃ r, paraCyclesLoop inst recurse ds deps = .ok r
  | [], _, _ => ⟨_, rfl⟩
  | d :: ds, deps, h => by
    unfold paraCyclesLoop
    split
    · rename_i hd
      split
      · exact ⟨_, rfl⟩
      · rename_i hin
        split
        · exact h _ hin ⟨d, List.mem_cons_self d ds, hd⟩
        · exact paraCyclesLoop_ok fun v hv => absurd (List.mem_append_right deps
            (List.mem_singleton_self inst)) hv
    · exact paraCyclesLoop_ok fun v hv ⟨e, he, hm⟩ =>
        h v hv ⟨e, List.mem_cons_of_mem d he, hm⟩

/-- With exactly one action named `inst` in the list, the loop does what that action says. -/
theorem paraCyclesLoop_unique :
    ∀ {ds : List Definition} {deps : List String} {d : Definition},
      ds.countP (fun e => e.action && e.instance == inst) = 1 → d ∈ ds →
      d.action = true ∧ d.instance = inst →
      paraCyclesLoop inst recurse ds deps =
        if inst ∈ deps then .ok (Report.error (.cyclicSweep inst deps))
        else (simTarget d).elim (.ok {}) fun v => recurse v (deps ++ [inst])
  | [], _, _, hc, _, _ => by simp at hc
  | e :: ds, deps, d, hc, hd, hm => by
    have hmatch : ∀ x : Definition,
        (x.action && x.instance == inst) = true ↔ x.action = true ∧ x.instance = inst :=
      fun x => by simp
    rw [paraCyclesLoop]
    by_cases he : e.action = true ∧ e.instance = inst
    · obtain rfl : d = e := eq_of_countP_eq_one hc d hd e (List.mem_cons_self e ds)
        ((hmatch d).mpr hm) ((hmatch e).mpr he)
      have hrest : ∀ x ∈ ds, ¬ (x.action = true ∧ x.instance = inst) := fun x hx hx' => by
        rw [List.countP_cons, if_pos ((hmatch d).mpr he)] at hc
        have : 0 < ds.countP (fun e => e.action && e.instance == inst) :=
          List.countP_pos_iff.mpr ⟨x, hx, (hmatch x).mpr hx'⟩
        omega
      rw [if_pos he]
      split
      · rfl
      · unfold simTarget
        split <;> simp [paraCyclesLoop_of_none hrest, *]
    · rw [if_neg he]
      have hc' : ds.countP (fun e => e.action && e.instance == inst) = 1 := by
        rwa [List.countP_cons, if_neg (mt (hmatch e).mp he), Nat.add_zero] at hc
      exact paraCyclesLoop_unique hc'
        ((List.mem_cons.mp hd).resolve_left fun h => he (h ▸ hm)) hm

end Loop

/-! ### The search -/

section Search

variable {root : List Definition}

theorem checkerCountAction_eq_one {v : String} (h : checkerCountAction root v = 1) :
    ∃ d ∈ root, d.action = true ∧ d.instance = v := by
  obtain ⟨d, hd, hm⟩ := List.countP_pos_iff.mp (show 0 < checkerCountAction root v by omega)
  exact ⟨d, hd, by simpa using hm⟩

/-- With one action named `u`, a link from `u` goes where that action's `Sim` goes. -/
theorem simStep_unique {u v : String} {d : Definition} (hc : checkerCountAction root u = 1)
    (hd : d ∈ root) (hm : d.action = true ∧ d.instance = u) (e : SimStep root u v) :
    simTarget d = some v := by
  obtain ⟨d', hd', ha', hi', hv⟩ := e
  rwa [eq_of_countP_eq_one hc d hd d' hd' (by simp [hm]) (by simp [ha', hi'])]

theorem sweepRoom_lt {deps : List String} {inst : String} {d : Definition} (hin : inst ∉ deps)
    (hd : d ∈ root) (hm : d.action = true ∧ d.instance = inst) :
    sweepRoom root (deps ++ [inst]) < sweepRoom root deps :=
  countP_lt_countP (fun x _ hx => by simp_all) hd (by simp [hm, hin]) (by simp [hm])

theorem sweepRoom_le {deps : List String} : sweepRoom root deps ≤ root.length :=
  List.countP_le_length _

/-- The search returns once the fuel exceeds the actions not yet on the path. -/
theorem checkerValidateParaCycles_ok :
    ∀ {fuel : Nat} {inst : String} {deps : List String}, sweepRoom root deps < fuel →
      ∃ r, checkerValidateParaCycles root fuel inst deps = .ok r
  | 0, _, _, h => absurd h (Nat.not_lt_zero _)
  | _ + 1, _, _, h => paraCyclesLoop_ok fun _ hin ⟨_, hd, hm⟩ =>
    checkerValidateParaCycles_ok (lt_of_lt_of_le (sweepRoom_lt hin hd hm) (Nat.lt_succ_iff.mp h))

/-- A search that reports no error, from an action named once, along a chain of actions named
once, meets no name of the path and no cycle among the actions the chain reaches. -/
theorem checkerValidateParaCycles_zero
    (hU : ∀ d ∈ root, d.action = true → ∀ v, simTarget d = some v → checkerCountAction root v = 1) :
    ∀ {fuel : Nat} {inst : String} {deps : List String} {r : Report},
      checkerCountAction root inst = 1 → checkerValidateParaCycles root fuel inst deps = .ok r →
      r.errors = 0 → ∀ w, ReflTransGen (SimStep root) inst w → w ∉ deps ∧ ¬ TransGen (SimStep root) w w
  | 0, _, _, _, _, h, _ => by cases h
  | fuel + 1, inst, deps, r, hc, h, h0 => by
    obtain ⟨d, hd, hm⟩ := checkerCountAction_eq_one hc
    rw [checkerValidateParaCycles, paraCyclesLoop_unique hc hd hm] at h
    have hin : inst ∉ deps := fun hin => by
      rw [if_pos hin] at h; cases h; simp [Report.error] at h0
    rw [if_neg hin] at h
    have hchild : ∀ v, SimStep root inst v → ∀ w, ReflTransGen (SimStep root) v w →
        w ∉ deps ++ [inst] ∧ ¬ TransGen (SimStep root) w w := by
      intro v e w hw
      have hv := simStep_unique hc hd hm e
      rw [hv] at h
      exact checkerValidateParaCycles_zero hU (hU d hd hm.1 v hv) h h0 w hw
    intro w hw
    rcases hw.cases_head with rfl | ⟨v, e, hvw⟩
    · refine ⟨hin, fun hcyc => ?_⟩
      obtain ⟨v, e, hv⟩ := TransGen.head'_iff.mp hcyc
      simpa using (hchild v e _ hv).1
    · have := hchild v e w hvw
      exact ⟨fun hw => this.1 (List.mem_append_left _ hw), this.2⟩

/-- Along a path whose names all lead to `inst`, the search from `inst` counts no error when no
cycle is reachable from `inst` and every action the chain reaches is named once. -/
theorem checkerValidateParaCycles_zero_of_acyclic
    (hU : ∀ d ∈ root, d.action = true → ∀ v, simTarget d = some v → checkerCountAction root v = 1) :
    ∀ {fuel : Nat} {inst : String} {deps : List String} {r : Report},
      checkerCountAction root inst = 1 → (∀ p ∈ deps, TransGen (SimStep root) p inst) →
      ¬ SimCycleFrom root inst → checkerValidateParaCycles root fuel inst deps = .ok r →
      r.errors = 0
  | 0, _, _, _, _, _, _, h => by cases h
  | fuel + 1, inst, deps, r, hc, hP, hacy, h => by
    obtain ⟨d, hd, hm⟩ := checkerCountAction_eq_one hc
    rw [checkerValidateParaCycles, paraCyclesLoop_unique hc hd hm] at h
    have hin : inst ∉ deps := fun hin => hacy ⟨inst, .refl, hP inst hin⟩
    rw [if_neg hin] at h
    cases hv : simTarget d with
    | none => rw [hv] at h; cases h; rfl
    | some v =>
      rw [hv] at h
      have e : SimStep root inst v := ⟨d, hd, hm.1, hm.2, hv⟩
      refine checkerValidateParaCycles_zero_of_acyclic hU (hU d hd hm.1 v hv) (fun p hp => ?_)
        (fun ⟨w, hw, hww⟩ => hacy ⟨w, .head e hw, hww⟩) h
      rcases List.mem_append.mp hp with hp | hp
      · exact (hP p hp).tail e
      · rw [List.mem_singleton.mp hp]; exact .single e

end Search

/-! ### The check of every sweep -/

/-- What one sweep needs for `checker_validate_para` to count no error for it. -/
def SweepOk (root : List Definition) (fuel : Nat) (d : Definition) : Prop :=
  d.action = true → d.type = "SW" → ∃ v, checkerFindReference d "Sim" = some v ∧
    v ≠ d.instance ∧ checkerCountAction root v = 1 ∧
    ∃ c, checkerValidateParaCycles root fuel v [] = .ok c ∧ c.errors = 0

theorem validatePara_errors {root : List Definition} {fuel : Nat} {d : Definition} {r : Report}
    (h : validatePara root fuel d = .ok r) : r.errors = 0 ↔ SweepOk root fuel d := by
  unfold validatePara at h
  unfold SweepOk
  split at h
  · rename_i hsw
    split at h
    · rename_i hv
      cases h
      simp [Report.error, hsw, hv]
    · rename_i v hv
      obtain ⟨c, hc, h⟩ := bind_eq_ok.mp h
      cases h
      simp [hsw, hv, hc, and_assoc, @eq_comm _ v]
  · rename_i hsw
    cases h
    exact iff_of_true rfl fun ha hs => absurd ⟨ha, hs⟩ hsw

theorem validatePara_ok {root : List Definition} {fuel : Nat} (hfuel : root.length < fuel)
    (d : Definition) : ∃ r, validatePara root fuel d = .ok r := by
  unfold validatePara
  split
  · split
    · exact ⟨_, rfl⟩
    · obtain ⟨c, hc⟩ := checkerValidateParaCycles_ok (lt_of_le_of_lt sweepRoom_le hfuel)
      exact ⟨_, by rw [hc]; rfl⟩
  · exact ⟨_, rfl⟩

/-- When every sweep's `Sim` names an action named once, so does every link of a chain. -/
theorem simTarget_named_once {root : List Definition} {P Q : Definition → String → Prop}
    (h : ∀ s ∈ root, s.action = true → s.type = "SW" → ∃ v, checkerFindReference s "Sim" = some v ∧
      P s v ∧ checkerCountAction root v = 1 ∧ Q s v) :
    ∀ d ∈ root, d.action = true → ∀ v, simTarget d = some v → checkerCountAction root v = 1 := by
  intro d hd ha v hv
  unfold simTarget at hv
  split at hv
  · obtain ⟨v', hv', -, hc, -⟩ := h d hd ha ‹_›
    rwa [Option.some.inj (hv.symm.trans hv')]
  · cases hv

/-- `checker_validate_para`, given more fuel than there are lines, returns, and counts no error
exactly when every sweep's `Sim` is an identifier naming exactly one action other than the sweep
and the `Sim` chain from that action never comes back to an action it passed. -/
theorem validate_para_iff (root : List Definition) (fuel : Nat) (hfuel : root.length < fuel) :
    ∃ r, checkerValidatePara root fuel = .ok r ∧
      (r.errors = 0 ↔ ∀ s ∈ root, s.action = true → s.type = "SW" →
        ∃ v, checkerFindReference s "Sim" = some v ∧ v ≠ s.instance ∧
          checkerCountAction root v = 1 ∧ ¬ SimCycleFrom root v) := by
  let ψ : Definition → Report := fun d => ((validatePara root fuel d).toOption).getD {}
  have hψ : ∀ d, validatePara root fuel d = .ok (ψ d) := fun d => by
    obtain ⟨r, hr⟩ := validatePara_ok hfuel d
    simp only [ψ, hr, Except.toOption, Option.getD_some]
  refine ⟨Report.concat (root.map ψ),
    by simp only [checkerValidatePara, mapM_ok fun d _ => hψ d]; rfl, ?_⟩
  rw [Report.concat_errors_eq_zero, List.forall_mem_map]
  simp only [validatePara_errors (hψ _)]
  constructor
  · intro hall s hs ha hsw
    obtain ⟨v, hv, hne, hc, c, hcyc, h0⟩ := hall s hs ha hsw
    exact ⟨v, hv, hne, hc, fun ⟨w, hw, hww⟩ =>
      (checkerValidateParaCycles_zero (simTarget_named_once hall) hc hcyc h0 w hw).2 hww⟩
  · intro hall d hd ha hsw
    obtain ⟨v, hv, hne, hc, hacy⟩ := hall d hd ha hsw
    obtain ⟨c, hcyc⟩ := @checkerValidateParaCycles_ok root fuel v []
      (lt_of_le_of_lt sweepRoom_le hfuel)
    exact ⟨v, hv, hne, hc, c, hcyc, checkerValidateParaCycles_zero_of_acyclic
      (simTarget_named_once hall) hc (fun _ h => absurd h (List.not_mem_nil _)) hacy hcyc⟩

/-- A sweep of a sweep of an AC analysis. -/
def nestedSweeps : List Definition :=
  [{ type := "SW", «instance» := "SW1", action := true, pairs := [identPair "Sim" "SW2"], sub := [] },
   { type := "SW", «instance» := "SW2", action := true, pairs := [identPair "Sim" "AC1"], sub := [] },
   { type := "AC", «instance» := "AC1", action := true, sub := [] }]

theorem nested_sweeps_para :
    ∃ r, checkerValidatePara nestedSweeps 4 = .ok r ∧
      (r.errors = 0 ↔ ∀ s ∈ nestedSweeps, s.action = true → s.type = "SW" →
        ∃ v, checkerFindReference s "Sim" = some v ∧ v ≠ s.instance ∧
          checkerCountAction nestedSweeps v = 1 ∧ ¬ SimCycleFrom nestedSweeps v) :=
  validate_para_iff nestedSweeps 4 (by decide)

end QucsNetlist
