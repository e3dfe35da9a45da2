import Foundrix.Effect.Wp
import Foundrix.Machine.Trace
import Foundrix.Stalwart.Configure

/-!
# Who has the catch-all

* `mailServer`: the mail server, whose principals only the script changes. An answer that is
  ok and has no error in its body is true.
* `mistaken`: the answers that the script takes for others. A read of a principal that is there may
  be refused, and a change may be answered ok with an error in the body.
* `Gains`, `Loses`: what converging an account and removing addresses from it may change.
* `convergeAccounts_spec`: the hand-over in a run without such an answer.
* `catch_all_converged_iff`: when a sequence of runs leaves the catch-all where it belongs.
-/

namespace Foundrix.Stalwart.Configure

open Text Effect Machine

variable {R : Type*} {rt : Runtime} {m m' m₁ m₂ : Accounts R}

/-! ## The mail server -/

/-- An answer that is ok and has an error in its body, which only `getPrincipal` looks for. -/
def swallowed (answer : Except String Reply) : Bool :=
  match answer with
  | .ok r => r.ok && (r.data.get "error").isSome
  | .error _ => false

def Acknowledged (answer : Except String Reply) : Prop :=
  (∃ r, answer = .ok r ∧ r.ok = true) ∧ swallowed answer = false

/-- A value that lists these items; an empty list may be left out. -/
def Lists (v : Option Json) (items : List String) : Prop :=
  ∀ s, includes (orEmpty v) s = .ok (decide (s ∈ items))

/-- A body that describes an account. -/
structure Tells (a : Account R) (data : Json) : Prop where
  object : ∃ entries, data = .object entries
  found : data.get "error" = none
  emails : Lists (data.get "emails") a.emails
  roles : Lists (data.get "roles") a.roles

/-- What an answer that is ok says about a name. -/
def Describes (found : Option (Account R)) (data : Json) : Prop :=
  match found with
  | some a => Tells a data
  | none => (data.get "error").isSome = true

def callStep : Call → Accounts R → Except String Reply → Accounts R → Prop
  | .getPrincipal name, m, answer, m' =>
    m' = m ∧ ∀ r, answer = .ok r → r.ok = true → Describes (m name) r.data
  | .updatePrincipal name us, m, answer, m' =>
    m' = m.updated name us ∨ (¬ Acknowledged answer ∧ m' = m)
  | .deployPrincipal (.individual name emails _ roles), m, answer, m' =>
    match m name with
    | none =>
      (∃ rest, m' = Function.update m name (some ⟨emails, roles, rest⟩)) ∨
        (¬ Acknowledged answer ∧ m' = m)
    -- What a principal becomes that is deployed again is up to the server.
    | some _ => ∀ n, n ≠ name → m' n = m n
  | _, m, _, m' => m' = m

def mailStep : {β : Type} → Op β → Accounts R → β → Accounts R → Prop
  | _, .mail c, m, answer, m' => callStep c m answer m'
  | _, .sleep _, m, _, m' => m' = m

def mailServer : Handler Op (Accounts R) where
  step e m b m' := mailStep e m b m'

/-- The principals, and what they were before each operation of a run. -/
abbrev Passing (R : Type*) := Accounts R × List (Accounts R)

/-- The calls that change an account. -/
def changesAccount : Call → Bool
  | .updatePrincipal _ _ | .deployPrincipal (.individual _ _ _ _) => true
  | _ => false

/-- The call whose answer the script takes for another one: the read of a principal that is there is
refused, or a change is answered ok and with an error. -/
def mistaken : {β : Type} → Op β → Passing R → β → Option Call
  | _, .mail (.getPrincipal name), x, answer =>
    match answer with
    | .ok r => if !r.ok && (x.1 name).isSome then some (.getPrincipal name) else none
    | .error _ => none
  | _, .mail c, _, answer => if changesAccount c && swallowed answer then some c else none
  | _, .sleep _, _, _ => none

/-- The runs in which no answer is mistaken. -/
def steady : Handler Op (Passing R) := mailServer.recorded.silent mistaken

/-! ## Addresses -/

def Holds (m : Accounts R) (address name : String) : Prop :=
  ∃ a, m name = some a ∧ address ∈ a.emails

theorem mem_applyAll_adds {us : List Update} (h : ∀ u ∈ us, u.action = .addItem) (e : String)
    (a : Account R) :
    e ∈ (applyAll us a).emails ↔ e ∈ a.emails ∨ ⟨.addItem, .emails, e⟩ ∈ us := by
  induction us generalizing a with
  | nil => simp [applyAll]
  | cons u us ih =>
    have hrest := ih (fun v hv => h v (List.mem_cons_of_mem u hv)) (u.apply a)
    have hu : e ∈ (u.apply a).emails ↔ e ∈ a.emails ∨ u = ⟨.addItem, .emails, e⟩ := by
      obtain ⟨action, field, value⟩ := u
      obtain rfl : action = .addItem := h _ List.mem_cons_self
      cases field with
      | roles => simp [Update.apply]
      | emails =>
        simp only [Update.apply, Action.apply, Update.mk.injEq, true_and]
        split
        · rename_i hmem
          constructor
          · exact Or.inl
          · rintro (he | rfl)
            · exact he
            · exact hmem
        · simp [eq_comm]
    show e ∈ (applyAll us (u.apply a)).emails ↔ _
    rw [hrest, hu, List.mem_cons, or_assoc, eq_comm]

theorem mem_applyAll_removes {l : List String} (e : String) (a : Account R) :
    e ∈ (applyAll (l.map fun v => Update.mk .removeItem .emails v) a).emails ↔
      e ∈ a.emails ∧ e ∉ l := by
  induction l generalizing a with
  | nil => simp [applyAll]
  | cons v l ih =>
    show e ∈ (applyAll _ (Update.apply _ a)).emails ↔ _
    rw [ih]
    simp only [Update.apply, Action.apply, List.mem_filter, bne_iff_ne, ne_eq, List.mem_cons,
      not_or, and_assoc]

/-- No account has lost an address. -/
def Grown (m m' : Accounts R) : Prop := ∀ e n, Holds m e n → Holds m' e n

/-- A part of a run in which no account loses an address at any step. -/
structure Grows (x y : Passing R) : Prop where
  grown : Grown x.1 y.1
  past : ∀ z ∈ y.2, z ∈ x.2 ∨ (Grown x.1 z ∧ Grown z y.1)

/-- What converging an account to these addresses may change. -/
structure Gains (name : String) (es : List String) (x y : Passing R) : Prop extends Grows x y where
  others : ∀ n, n ≠ name → y.1 n = x.1 n
  gained : ∀ e, Holds y.1 e name → Holds x.1 e name ∨ e ∈ es

/-- What removing addresses from an account may change. -/
structure Loses (name : String) (x y : Passing R) : Prop where
  others : ∀ n, n ≠ name → y.1 n = x.1 n
  old : ∀ e, Holds y.1 e name → Holds x.1 e name

/-- What leaves the accounts alone. -/
structure Same (x y : Passing R) : Prop extends Grows x y where
  accounts : y.1 = x.1

theorem Grown.refl (m : Accounts R) : Grown m m := fun _ _ h => h

theorem Grown.trans {m m' m'' : Accounts R} (h : Grown m m') (h' : Grown m' m'') : Grown m m'' :=
  fun e n hold => h' e n (h e n hold)

theorem Grows.refl (x : Passing R) : Grows x x := ⟨.refl _, fun _ h => Or.inl h⟩

theorem Grows.trans {x y z : Passing R} (h : Grows x y) (h' : Grows y z) : Grows x z := by
  refine ⟨h.grown.trans h'.grown, fun m hm => ?_⟩
  rcases h'.past m hm with hm | ⟨hym, hmz⟩
  · rcases h.past m hm with hm | ⟨hxm, hmy⟩
    · exact Or.inl hm
    · exact Or.inr ⟨hxm, hmy.trans h'.grown⟩
  · exact Or.inr ⟨h.grown.trans hym, hmz⟩

/-- One step in which no account loses an address. -/
theorem grows_step {x y : Passing R} (h : Grown x.1 y.1) (hpast : y.2 = x.2 ++ [x.1]) :
    Grows x y := by
  refine ⟨h, fun m hm => ?_⟩
  rw [hpast] at hm
  rcases List.mem_append.mp hm with hm | hm
  · exact Or.inl hm
  · rw [List.mem_singleton.mp hm]
    exact Or.inr ⟨.refl _, h⟩

theorem Same.refl (x : Passing R) : Same x x := ⟨.refl x, rfl⟩

theorem same_step {x y : Passing R} (h : y.1 = x.1) (hpast : y.2 = x.2 ++ [x.1]) : Same x y := by
  refine ⟨grows_step ?_ hpast, h⟩
  rw [h]
  exact .refl _

theorem Same.gains {x y : Passing R} (h : Same x y) (name : String) (es : List String) :
    Gains name es x y where
  toGrows := h.toGrows
  others n _ := by rw [h.accounts]
  gained e he := by
    rw [h.accounts] at he
    exact Or.inl he

theorem Same.loses {x y : Passing R} (h : Same x y) (name : String) : Loses name x y where
  others n _ := by rw [h.accounts]
  old e he := by
    rw [h.accounts] at he
    exact he

theorem Same.then_gains {x y z : Passing R} {name : String} {es : List String} (h : Same x y)
    (h' : Gains name es y z) : Gains name es x z where
  toGrows := h.toGrows.trans h'.toGrows
  others n hn := (h'.others n hn).trans (by rw [h.accounts])
  gained e he := by
    rw [← h.accounts]
    exact h'.gained e he

theorem Same.then_loses {x y z : Passing R} {name : String} (h : Same x y)
    (h' : Loses name y z) : Loses name x z where
  others n hn := (h'.others n hn).trans (by rw [h.accounts])
  old e he := by
    rw [← h.accounts]
    exact h'.old e he

theorem holds_congr {n e : String} (h : m' n = m n) : Holds m' e n ↔ Holds m e n := by
  unfold Holds
  rw [h]

/-! ## Calls -/

theorem getPrincipal_spec (name : String) (x : Passing R) :
    wpOk steady (Same x) (getPrincipal name : Script (Option Json))
      (fun found _ => match x.1 name with
        | some a => ∃ data, found = some data ∧ Tells a data
        | none => found = none) x := by
  refine wp_op.mpr ⟨.refl x, fun answer y hs => ?_⟩
  obtain ⟨⟨⟨haccounts, hdescribed⟩, hpast⟩, hread⟩ := hs
  have hy : Same x y := same_step haccounts hpast
  cases answer with
  | error e => exact wpOk_fail hy
  | ok r =>
    show wpOk _ _ (if (!r.ok) = true then _ else _) _ _
    cases hok : r.ok with
    | false =>
      refine wpOk_pure hy ?_
      cases hm : x.1 name with
      | none => rfl
      | some a =>
        change (if !r.ok && (x.1 name).isSome then some (Call.getPrincipal name) else none) = none
          at hread
        rw [hok, hm] at hread
        cases hread
    | true =>
      have hdata := hdescribed r rfl hok
      show wpOk _ _ (if (r.data.get "error").isSome = true then _ else _) _ _
      cases hm : x.1 name with
      | none =>
        rw [hm] at hdata
        rw [if_pos (show (r.data.get "error").isSome = true from hdata)]
        exact wpOk_pure hy rfl
      | some a =>
        rw [hm] at hdata
        have hfound : ¬ (r.data.get "error").isSome = true := by
          rw [hdata.found]
          exact nofun
        rw [if_neg hfound]
        exact wpOk_pure hy ⟨r.data, rfl, hdata⟩

/-- What follows the read of a principal, by whether it is there. -/
theorem getPrincipal_seq {α : Type} {name : String} {f : Option Json → Script α}
    {I : Passing R → Prop} {Q : α → Passing R → Prop} {x : Passing R} (hI : ∀ y, Same x y → I y)
    (hnone : ∀ y, Same x y → y.1 name = none → wpOk steady I (f none) Q y)
    (hsome : ∀ y a entries, Same x y → y.1 name = some a → Tells a (.object entries) →
      wpOk steady I (f (some (.object entries))) Q y) :
    wpOk steady I ((getPrincipal name).bind f) Q x := by
  apply wpOk_seq_within (getPrincipal_spec name x) hI
  intro found y hy hfound
  cases hm : x.1 name with
  | none =>
    rw [hm] at hfound
    obtain rfl : found = none := hfound
    exact hnone y hy (by rw [hy.accounts, hm])
  | some a =>
    rw [hm] at hfound
    obtain ⟨data, rfl, htells⟩ := hfound
    obtain ⟨entries, rfl⟩ := htells.object
    exact hsome y a entries hy (by rw [hy.accounts, hm]) htells

theorem itemsIn_eq {v : Option Json} {items : List String} (h : Lists v items) (present : Bool)
    (l : List String) :
    itemsIn present (orEmpty v) l = .pure (l.filter fun i => decide (i ∈ items) == present) := by
  induction l with
  | nil => rfl
  | cons i l ih =>
    rw [itemsIn, h i]
    show Prog.bind (itemsIn present (orEmpty v) l) _ = _
    rw [ih]
    show Prog.pure _ = _
    rw [List.filter_cons]

theorem mistaken_change {c : Call} (hc : changesAccount c = true) (x : Passing R)
    {answer : Except String Reply} (h : mistaken (.mail c) x answer = none) :
    swallowed answer = false := by
  have hlogged : (if changesAccount c && swallowed answer then some c else none) = none := by
    cases c with
    | getPrincipal name => cases hc
    | _ => exact h
  rw [hc, Bool.true_and] at hlogged
  cases hs : swallowed answer with
  | false => rfl
  | true =>
    rw [hs] at hlogged
    cases hlogged

/-- A call that changes something, where it throws unless its answer is ok. -/
theorem demand_spec {c : Call} {failure : String} {I Q : Passing R → Prop} {x : Passing R}
    (hc : changesAccount c = true) (hI : I x)
    (h : ∀ answer y, callStep c x.1 answer y.1 → y.2 = x.2 ++ [x.1] →
      I y ∧ (Acknowledged answer → Q y)) :
    wpOk steady I ((demand rt c failure : Script Json).bind fun _ => .pure ())
      (fun _ y => Q y) x := by
  refine wp_op.mpr ⟨hI, fun answer y hs => ?_⟩
  obtain ⟨hy, hQ⟩ := h answer y hs.1.1 hs.1.2
  cases answer with
  | error e => exact wpOk_fail hy
  | ok r =>
    show wpOk _ _ (Prog.bind (if (!r.ok) = true then _ else _) _) _ _
    cases hok : r.ok with
    | false => exact wpOk_fail hy
    | true => exact wpOk_pure hy (hQ ⟨⟨r, rfl, hok⟩, mistaken_change hc x hs.2⟩)

theorem updatePrincipal_spec {name : String} {us : List Update} {I Q : Passing R → Prop}
    {x : Passing R} (hI : I x) (h : ∀ y, y.1 = x.1.updated name us → y.2 = x.2 ++ [x.1] → I y ∧ Q y)
    (hsame : ∀ y, Same x y → I y) :
    wpOk steady I (updatePrincipal rt name us : Script Unit) (fun _ y => Q y) x := by
  apply demand_spec rfl hI
  rintro answer y (haccounts | ⟨hnot, haccounts⟩) hpast
  · obtain ⟨hI, hQ⟩ := h y haccounts hpast
    exact ⟨hI, fun _ => hQ⟩
  · exact ⟨hsame y (same_step haccounts hpast), fun hack => absurd hack hnot⟩

theorem holds_updated {name e : String} {us : List Update} {a : Account R} (ha : m name = some a) :
    Holds (m.updated name us) e name ↔ e ∈ (applyAll us a).emails := by
  simp [Holds, Accounts.updated, ha]

theorem gains_of_adds {name : String} {us : List Update} {es : List String} {a : Account R}
    {x y : Passing R} (ha : x.1 name = some a) (haccounts : y.1 = x.1.updated name us)
    (hpast : y.2 = x.2 ++ [x.1]) (hadd : ∀ u ∈ us, u.action = .addItem)
    (hes : ∀ e, ⟨.addItem, .emails, e⟩ ∈ us → e ∈ es) : Gains name es x y := by
  have hothers : ∀ n, n ≠ name → y.1 n = x.1 n := by
    intro n hn
    rw [haccounts]
    exact if_neg hn
  have hname : ∀ e, Holds y.1 e name ↔ e ∈ a.emails ∨ ⟨.addItem, .emails, e⟩ ∈ us := by
    intro e
    rw [haccounts, holds_updated ha, mem_applyAll_adds hadd]
  refine ⟨grows_step (fun e n hold => ?_) hpast, hothers, fun e he => ?_⟩
  · by_cases hn : n = name
    · rw [hn] at hold ⊢
      obtain ⟨a', ha', he⟩ := hold
      obtain rfl : a' = a := Option.some.inj (ha'.symm.trans ha)
      exact (hname e).mpr (Or.inl he)
    · exact (holds_congr (hothers n hn)).mpr hold
  · rcases (hname e).mp he with he | he
    · exact Or.inl ⟨a, ha, he⟩
    · exact Or.inr (hes e he)

/-- The updates that add the addresses that an account is missing, and the role. -/
def missingUpdates (a : Account R) (es : List String) : List Update :=
  let updates := (es.filter fun e => decide (e ∈ a.emails) == false).map fun e =>
    Update.mk .addItem .emails e
  if decide (defaultRole ∈ a.roles) = true then updates
  else updates ++ [⟨.addItem, .roles, defaultRole⟩]

theorem mem_missingUpdates {a : Account R} {es : List String} {v : Update} :
    v ∈ missingUpdates a es ↔ (∃ e, v = ⟨.addItem, .emails, e⟩ ∧ e ∈ es ∧ e ∉ a.emails) ∨
      v = ⟨.addItem, .roles, defaultRole⟩ ∧ defaultRole ∉ a.roles := by
  have hemails : v ∈ (es.filter fun e => decide (e ∈ a.emails) == false).map
      (fun e => Update.mk .addItem .emails e) ↔
        ∃ e, v = ⟨.addItem, .emails, e⟩ ∧ e ∈ es ∧ e ∉ a.emails := by
    rw [List.mem_map]
    refine exists_congr fun e => ?_
    rw [List.mem_filter, and_comm, eq_comm]
    simp
  unfold missingUpdates
  by_cases hrole : defaultRole ∈ a.roles
  · simp only [hrole, decide_true, if_true, not_true, and_false, or_false, hemails]
  · simp only [hrole, decide_false, Bool.false_eq_true, if_false, not_false_eq_true, and_true,
      List.mem_append, List.mem_singleton, hemails]

theorem missingUpdates_add {a : Account R} {es : List String} :
    ∀ v ∈ missingUpdates a es, v.action = .addItem := by
  intro v hv
  rcases mem_missingUpdates.mp hv with ⟨e, rfl, -⟩ | ⟨rfl, -⟩ <;> rfl

theorem missing_email {a : Account R} {es : List String} (e : String) :
    ⟨.addItem, .emails, e⟩ ∈ missingUpdates a es ↔ e ∈ es ∧ e ∉ a.emails := by
  simp [mem_missingUpdates]

theorem missing_role {a : Account R} {es : List String} :
    ⟨.addItem, .roles, defaultRole⟩ ∈ missingUpdates a es ↔ defaultRole ∉ a.roles := by
  simp [mem_missingUpdates]

/-- A new account, where there was none. -/
theorem gains_of_new {name : String} {es roles : List String} {rest : R} {x y : Passing R}
    (hnone : x.1 name = none)
    (haccounts : y.1 = Function.update x.1 name (some ⟨es, roles, rest⟩))
    (hpast : y.2 = x.2 ++ [x.1]) : Gains name es x y ∧ ∀ e ∈ es, Holds y.1 e name := by
  have hothers : ∀ n, n ≠ name → y.1 n = x.1 n := by
    intro n hn
    rw [haccounts]
    exact Function.update_of_ne hn _ _
  have hname : ∀ e, Holds y.1 e name ↔ e ∈ es := by
    intro e
    simp [haccounts, Holds]
  refine ⟨⟨grows_step (fun e n hold => ?_) hpast, hothers, fun e he => Or.inr ((hname e).mp he)⟩,
    fun e he => (hname e).mpr he⟩
  have hn : n ≠ name := by
    rintro rfl
    obtain ⟨a, ha, -⟩ := hold
    rw [hnone] at ha
    cases ha
  exact (holds_congr (hothers n hn)).mpr hold

theorem convergeAccount_spec (name : String) (es : List String) (description : String)
    (x : Passing R) :
    wpOk steady (Gains name es x) (convergeAccount rt name es description)
      (fun _ y => ∀ e ∈ es, Holds y.1 e name) x := by
  apply getPrincipal_seq (fun y hy => hy.gains name es)
  · intro y hy hnone
    apply demand_spec rfl (hy.gains name es)
    intro answer z hs hpast
    have hs : (∃ rest, z.1 = Function.update y.1 name (some ⟨es, [defaultRole], rest⟩)) ∨
        (¬ Acknowledged answer ∧ z.1 = y.1) := by
      simpa only [callStep, hnone] using hs
    rcases hs with ⟨rest, haccounts⟩ | ⟨hnot, haccounts⟩
    · obtain ⟨hgains, hnew⟩ := gains_of_new hnone haccounts hpast
      exact ⟨hy.then_gains hgains, fun _ => hnew⟩
    · have hsame := (same_step haccounts hpast).gains name es
      exact ⟨hy.then_gains hsame, fun hack => absurd hack hnot⟩
  · intro y a entries hy hm htells
    have hmissing := itemsIn_eq htells.emails false es
    have hrole := htells.roles defaultRole
    show wpOk _ _ (Prog.bind (itemsIn false _ es) _) _ y
    rw [hmissing]
    show wpOk _ _ (Prog.bind (Prog.orFail (includes _ defaultRole)) _) _ y
    rw [hrole]
    show wpOk steady (Gains name es x)
      (if (missingUpdates a es).isEmpty = true then pure ()
        else updatePrincipal rt name (missingUpdates a es))
      (fun _ y => ∀ e ∈ es, Holds y.1 e name) y
    split
    · rename_i hempty
      refine wpOk_pure (hy.gains name es) fun e he => ⟨a, hm, ?_⟩
      by_contra hnot
      have hin := (missing_email e).mpr ⟨he, hnot⟩
      rw [List.isEmpty_iff.mp hempty] at hin
      cases hin
    · refine updatePrincipal_spec (hy.gains name es) (fun z haccounts hpast => ?_)
        fun z hz => hy.then_gains (hz.gains name es)
      have hgains : Gains name es y z := gains_of_adds hm haccounts hpast missingUpdates_add
        fun e he => ((missing_email e).mp he).1
      refine ⟨hy.then_gains hgains, fun e he => ?_⟩
      rw [haccounts, holds_updated hm, mem_applyAll_adds missingUpdates_add, missing_email]
      by_cases hold : e ∈ a.emails
      · exact Or.inl hold
      · exact Or.inr ⟨he, hold⟩

theorem removeAddresses_spec (name : String) (es : List String) (x : Passing R) :
    wpOk steady (Loses name x) (removeAddresses rt name es)
      (fun _ y => ∀ e ∈ es, ¬ Holds y.1 e name) x := by
  apply getPrincipal_seq (fun y hy => hy.loses name)
  · intro y hy hm
    refine wpOk_pure (hy.loses name) fun e _ he => ?_
    obtain ⟨a, ha, -⟩ := he
    rw [hm] at ha
    cases ha
  · intro y a entries hy hm htells
    show wpOk _ _ (Prog.bind (itemsIn true _ es) _) _ y
    rw [itemsIn_eq htells.emails true es]
    generalize hpresent : es.filter (fun i => decide (i ∈ a.emails) == true) = present
    have hmem : ∀ e, e ∈ present ↔ e ∈ es ∧ e ∈ a.emails := by
      intro e
      simp [← hpresent]
    show wpOk _ _ (if present.isEmpty = true then _ else _) _ y
    split
    · rename_i hempty
      refine wpOk_pure (hy.loses name) fun e he hold => ?_
      obtain ⟨a', ha', hin⟩ := hold
      obtain rfl : a' = a := Option.some.inj (ha'.symm.trans hm)
      have hin := (hmem e).mpr ⟨he, hin⟩
      rw [List.isEmpty_iff.mp hempty] at hin
      cases hin
    · refine updatePrincipal_spec (hy.loses name) (fun z haccounts _ => ?_)
        fun z hz => hy.then_loses (hz.loses name)
      have hname : ∀ e, Holds z.1 e name ↔ e ∈ a.emails ∧ e ∉ present := by
        intro e
        rw [haccounts, holds_updated hm, mem_applyAll_removes]
      have hloses : Loses name y z := by
        refine ⟨fun n hn => ?_, fun e he => ⟨a, hm, ((hname e).mp he).1⟩⟩
        rw [haccounts]
        exact if_neg hn
      refine ⟨hy.then_loses hloses, fun e he hold => ?_⟩
      obtain ⟨hin, hnot⟩ := (hname e).mp hold
      exact hnot ((hmem e).mpr ⟨he, hin⟩)

/-! ## The hand-over -/

def DesiredState.admin (spec : DesiredState) : String :=
  principalName spec.adminUsername spec.domains

/-- The account that is to have the catch-all. -/
def DesiredState.target (spec : DesiredState) : String :=
  principalName (spec.catchAllUser.getD spec.adminUsername) spec.domains

theorem principalName_inj {u v : String} {domains : List String}
    (h : principalName u domains = principalName v domains) : u = v := by
  have h := congrArg String.toList h
  simp only [principalName, String.toList_append] at h
  exact String.toList_inj.mp (List.append_cancel_right (List.append_cancel_right h))

theorem catchAll_mem_sinkEmails (u : String) {d : String} {domains : List String}
    (hd : d ∈ domains) : catchAll d ∈ sinkEmails u domains :=
  List.mem_flatMap.mpr ⟨d, hd, by simp⟩

theorem catchAll_mem_adminEmails {d : String} {domains : List String} (hd : d ∈ domains) :
    catchAll d ∈ adminEmails domains none :=
  List.mem_flatMap.mpr ⟨d, hd, by simp⟩

theorem catchAll_notMem_adminEmails (u d : String) (domains : List String) :
    catchAll d ∉ adminEmails domains (some u) := by
  intro h
  obtain ⟨d', -, h⟩ := List.mem_flatMap.mp h
  have hstart : ∀ c l, catchAll d = String.ofList (c :: l) ++ d' → c = '@' := by
    intro c l he
    have he := congrArg String.toList he
    simp only [catchAll, String.toList_append, String.toList_ofList, List.cons_append] at he
    exact (List.cons.inj he).1.symm
  simp only [Option.isNone_some, Bool.false_eq_true, if_false, List.append_nil, List.mem_cons,
    List.not_mem_nil, or_false] at h
  rcases h with h | h | h | h
  · exact absurd (hstart 'a' "dmin@".toList h) (by decide)
  · exact absurd (hstart 'p' "ostmaster@".toList h) (by decide)
  · exact absurd (hstart 'a' "buse@".toList h) (by decide)
  · exact absurd (hstart 'w' "ebmaster@".toList h) (by decide)

/-- Where the catch-all addresses of the domains are held, they stay held. -/
def Kept (domains : List String) (m m' : Accounts R) : Prop :=
  ∀ d ∈ domains, (∃ n, Holds m (catchAll d) n) → ∃ n, Holds m' (catchAll d) n

/-- What was held before, at the start of a part of a run or at any step, is still held. -/
structure Lasting (domains : List String) (x y : Passing R) : Prop where
  start : Kept domains x.1 y.1
  past : ∀ m ∈ y.2, Kept domains m y.1

theorem Grown.kept {domains : List String} (h : Grown m m') : Kept domains m m' :=
  fun _ _ ⟨n, hn⟩ => ⟨n, h _ n hn⟩

theorem Kept.trans {domains : List String} {m'' : Accounts R} (h : Kept domains m m')
    (h' : Kept domains m' m'') : Kept domains m m'' :=
  fun d hd hold => h' d hd (h d hd hold)

theorem Lasting.grows {domains : List String} {x y z : Passing R} (h : Lasting domains x y)
    (hyz : Grows y z) : Lasting domains x z := by
  refine ⟨h.start.trans hyz.grown.kept, fun m hm => ?_⟩
  rcases hyz.past m hm with hm | ⟨-, hmz⟩
  · exact (h.past m hm).trans hyz.grown.kept
  · exact hmz.kept

/-- Where somebody has each of them, what was held is held. -/
theorem lasting_of_held {domains : List String} {x y : Passing R}
    (h : ∀ d ∈ domains, ∃ n, Holds y.1 (catchAll d) n) : Lasting domains x y :=
  ⟨fun d hd _ => h d hd, fun _ _ d hd _ => h d hd⟩

/-- The sink is not the admin. -/
def DesiredState.Apart (spec : DesiredState) : Prop :=
  spec.catchAllUser ≠ some spec.adminUsername

/-- Who has the catch-all of a domain after a complete run. -/
def HeldAfter (spec : DesiredState) (m : Accounts R) (address n : String) : Prop :=
  (n = spec.target ∨ Holds m address n) ∧ (spec.catchAllUser.isSome = true → n ≠ spec.admin)

theorem Gains.holds_iff {name e n : String} {es : List String} {x y : Passing R}
    (h : Gains name es x y) (hnew : Holds y.1 e name) :
    Holds y.1 e n ↔ n = name ∨ Holds x.1 e n := by
  constructor
  · intro hold
    by_cases hn : n = name
    · exact Or.inl hn
    · exact Or.inr ((holds_congr (h.others n hn)).mp hold)
  · rintro (rfl | hold)
    · exact hnew
    · exact h.grown e n hold

theorem Gains.holds_of_notMem {name e n : String} {es : List String} {x y : Passing R}
    (h : Gains name es x y) (he : e ∉ es) : Holds y.1 e n ↔ Holds x.1 e n := by
  constructor
  · intro hold
    by_cases hn : n = name
    · rw [hn] at hold ⊢
      exact (h.gained e hold).resolve_right he
    · exact (holds_congr (h.others n hn)).mp hold
  · exact h.grown e n

theorem Loses.holds_iff {name e n : String} {x y : Passing R} (h : Loses name x y)
    (hgone : ¬ Holds y.1 e name) : Holds y.1 e n ↔ n ≠ name ∧ Holds x.1 e n := by
  constructor
  · intro hold
    have hn : n ≠ name := fun hn => hgone (hn ▸ hold)
    exact ⟨hn, (holds_congr (h.others n hn)).mp hold⟩
  · rintro ⟨hn, hold⟩
    exact (holds_congr (h.others n hn)).mpr hold

section HandOver

variable {spec : DesiredState} {x : Passing R}

theorem convergeAccounts_none (hsink : spec.catchAllUser = none)
    (hstart : Lasting spec.domains x x) :
    wpOk steady (Lasting spec.domains x) (convergeAccounts rt spec)
      (fun _ y => ∀ d ∈ spec.domains, ∀ n,
        Holds y.1 (catchAll d) n ↔ HeldAfter spec x.1 (catchAll d) n) x := by
  have htarget : spec.target = spec.admin := by
    simp [DesiredState.target, DesiredState.admin, hsink]
  unfold convergeAccounts convergeAdminAccount
  rw [hsink]
  apply wpOk_seq_within (convergeAccount_spec spec.admin (adminEmails spec.domains none)
    "System administrator" x) (fun _ hg => hstart.grows hg.toGrows)
  intro _ y hg hnew
  refine wpOk_pure (hstart.grows hg.toGrows) fun d hd n => ?_
  rw [hg.holds_iff (hnew _ (catchAll_mem_adminEmails hd)), HeldAfter, htarget, hsink]
  simp

/-- The sink is given the addresses before they are taken from the admin. -/
theorem convergeAccounts_some {u : String} (hsink : spec.catchAllUser = some u)
    (hstart : spec.Apart → Lasting spec.domains x x) :
    wpOk steady (fun y => spec.Apart → Lasting spec.domains x y) (convergeAccounts rt spec)
      (fun _ y => ∀ d ∈ spec.domains, ∀ n,
        Holds y.1 (catchAll d) n ↔ HeldAfter spec x.1 (catchAll d) n) x := by
  have htarget : spec.target = principalName u spec.domains := by
    simp [DesiredState.target, hsink]
  have hapart : spec.Apart → spec.target ≠ spec.admin := by
    intro hne heq
    rw [htarget] at heq
    exact hne (hsink.trans (congrArg some (principalName_inj heq)))
  have hmem : ∀ d ∈ spec.domains, catchAll d ∈ spec.domains.map catchAll :=
    fun d hd => List.mem_map_of_mem hd
  unfold convergeAccounts convergeCatchAllAccount convergeAdminAccount
  rw [hsink]
  show wpOk _ _ (Prog.bind (convergeAccount rt (principalName u spec.domains) _ _) _) _ x
  rw [← htarget]
  apply wpOk_seq_within (convergeAccount_spec spec.target (sinkEmails u spec.domains) _ x)
    (fun _ hg hne => (hstart hne).grows hg.toGrows)
  intro _ y₁ hg₁ hnew
  apply wpOk_seq_within (convergeAccount_spec spec.admin (adminEmails spec.domains (some u)) _ y₁)
    (fun _ hg₂ hne => ((hstart hne).grows hg₁.toGrows).grows hg₂.toGrows)
  intro _ y₂ hg₂ _
  have hheld : ∀ d ∈ spec.domains, ∀ n,
      Holds y₂.1 (catchAll d) n ↔ n = spec.target ∨ Holds x.1 (catchAll d) n := by
    intro d hd n
    rw [hg₂.holds_of_notMem (catchAll_notMem_adminEmails u d spec.domains),
      hg₁.holds_iff (hnew _ (catchAll_mem_sinkEmails u hd))]
  show wpOk _ _ (removeAddresses rt spec.admin (spec.domains.map catchAll)) _ y₂
  have hremoved : wpOk steady (Loses spec.admin y₂)
      (removeAddresses rt spec.admin (spec.domains.map catchAll)) (fun _ y =>
        ∀ d ∈ spec.domains, ∀ n,
          Holds y.1 (catchAll d) n ↔ HeldAfter spec x.1 (catchAll d) n) y₂ := by
    apply wpOk_mono (removeAddresses_spec spec.admin (spec.domains.map catchAll) y₂)
    intro _ y₃ hl hgone d hd n
    rw [hl.holds_iff (hgone _ (hmem d hd)), hheld d hd, HeldAfter, hsink, and_comm]
    simp
  refine wp_always_mono hremoved fun y₃ hl hne => lasting_of_held fun d hd => ⟨spec.target, ?_⟩
  rw [holds_congr (hl.others _ (hapart hne)), hheld d hd]
  exact Or.inl rfl

theorem convergeAccounts_spec (rt : Runtime) (spec : DesiredState) (x : Passing R)
    (hstart : spec.Apart → Lasting spec.domains x x) :
    wpOk steady (fun y => spec.Apart → Lasting spec.domains x y) (convergeAccounts rt spec)
      (fun _ y => ∀ d ∈ spec.domains, ∀ n,
        Holds y.1 (catchAll d) n ↔ HeldAfter spec x.1 (catchAll d) n) x := by
  cases hsink : spec.catchAllUser with
  | none =>
    have hapart : spec.Apart := by
      rw [DesiredState.Apart, hsink]
      exact nofun
    exact wp_always_mono (convergeAccounts_none hsink (hstart hapart)) fun _ h _ => h
  | some u => exact convergeAccounts_some hsink hstart

end HandOver

/-! ## What leaves the accounts alone -/

/-- An operation that changes no account. -/
def Aside : {β : Type} → Op β → Prop
  | _, .mail (.updatePrincipal _ _) => False
  | _, .mail (.deployPrincipal (.individual _ _ _ _)) => False
  | _, _ => True

theorem aside_step {β : Type} {e : Op β} {b : β} {x y : Passing R} (he : Aside e)
    (hs : steady.step e x b y) : Same x y := by
  obtain ⟨⟨hs, hpast⟩, -⟩ := hs
  refine same_step ?_ hpast
  cases e with
  | sleep ms => exact hs
  | mail c =>
    cases c with
    | updatePrincipal name us => exact he.elim
    | getPrincipal name => exact hs.1
    | deployPrincipal p =>
      cases p with
      | domain name => exact hs
      | individual name emails description roles => exact he.elim
    | _ => exact hs

theorem Same.trans {x y z : Passing R} (h : Same x y) (h' : Same y z) : Same x z :=
  ⟨h.toGrows.trans h'.toGrows, h'.accounts.trans h.accounts⟩

theorem aside_spec {α : Type} {p : Script α} (hp : p.Only Aside) (x : Passing R) :
    wpOk steady (Same x) p (fun _ _ => True) x := by
  have h := wp_only (J := Same x) hp
    (fun e w b w' he hw hs => hw.trans (aside_step he hs)) (.refl x)
  exact wp_mono h fun _ _ _ _ _ _ => trivial

theorem only_request {c : Call} (hc : Aside (.mail c)) :
    (request c : Script Reply).Only Aside :=
  Prog.only_bind (Prog.only_perform hc) fun r => Prog.only_orFail r

theorem only_demand {c : Call} {failure : String} (hc : Aside (.mail c)) :
    (demand rt c failure : Script Json).Only Aside := by
  apply Prog.only_bind (only_request hc)
  intro r
  split <;> trivial

/-- A call whose answer is only checked. -/
theorem only_checked {c : Call} {failure : String} (hc : Aside (.mail c)) :
    ((demand rt c failure : Script Json).bind fun _ => .pure ()).Only Aside :=
  Prog.only_bind (only_demand hc) fun _ => trivial

theorem only_getSettings (key : String) : (getSettings rt key : Script Json).Only Aside := by
  apply Prog.only_bind (only_demand (show Aside (.mail (.getSettings key)) from trivial))
  intro data
  split <;> trivial

theorem only_convergeSetting (key : String) (value : Option String) :
    (convergeSetting rt key value).Only Aside := by
  have hclear : Aside (.mail (.clearSettings key)) := trivial
  have hset : Aside (.mail (.setSettings [(key, value)])) := trivial
  apply Prog.only_bind (only_getSettings key)
  intro current
  split
  · exact Prog.only_bind (only_checked hclear) fun _ => only_checked hset
  · trivial

theorem only_convergeDkimSignature (algorithm : Algorithm) (domain selector : String) :
    (convergeDkimSignature rt algorithm domain selector).Only Aside := by
  have hcreate : Aside (.mail (.createDkim algorithm domain selector)) := trivial
  have hkey : Aside (.mail (.getDkimPublicKey s!"{algorithm.lower}-{domain}")) := trivial
  apply Prog.only_bind (only_getSettings _)
  intro existing
  split
  · trivial
  · apply Prog.only_bind (only_checked hcreate)
    intro _
    exact Prog.only_bind (Prog.only_bind (only_request hkey) fun _ => trivial) fun _ => trivial

theorem only_convergeDomains (domains : List String) :
    (convergeDomains rt domains).Only Aside := by
  apply Prog.only_forM
  intro domain _
  have hdomain : Aside (.mail (.deployPrincipal (.domain domain))) := trivial
  apply Prog.only_bind (only_checked hdomain)
  intro _
  exact Prog.only_bind (only_convergeDkimSignature _ _ _) fun _ =>
    only_convergeDkimSignature _ _ _

theorem only_waitForApi : waitForApi.Only Aside := by
  have hprobe : Aside (.mail .probe) := trivial
  apply Prog.only_iterate
  intro _
  have hready : (isReady : Script Bool).Only Aside := by
    apply Prog.only_bind (Prog.only_perform hprobe)
    intro r
    cases r <;> trivial
  apply Prog.only_bind hready
  intro ready
  split
  · trivial
  · exact Prog.only_bind (Prog.only_perform trivial) fun _ => trivial

/-- What comes before the accounts. -/
theorem aside_seq {α β : Type} {p : Script α} {f : α → Script β} {domains : List String}
    {A : Prop} {Q : β → Passing R → Prop} {x y : Passing R} (hp : p.Only Aside)
    (hy : Same x y) (hlasting : A → Lasting domains x y)
    (hf : ∀ a z, Same x z → (A → Lasting domains x z) →
      wpOk steady (fun z => A → Lasting domains x z) (f a) Q z) :
    wpOk steady (fun z => A → Lasting domains x z) (p.bind f) Q y := by
  apply wpOk_seq_within (aside_spec hp y) fun z hz ha => (hlasting ha).grows hz.toGrows
  intro a z hz _
  exact hf a z (hy.trans hz) fun ha => (hlasting ha).grows hz.toGrows

theorem main_spec (rt : Runtime) (spec : DesiredState) (x : Passing R)
    (hstart : spec.Apart → Lasting spec.domains x x) :
    wpOk steady (fun y => spec.Apart → Lasting spec.domains x y) (main rt spec)
      (fun _ y => ∀ d ∈ spec.domains, ∀ n,
        Holds y.1 (catchAll d) n ↔ HeldAfter spec x.1 (catchAll d) n) x := by
  apply aside_seq only_waitForApi (.refl x) hstart
  intro _ y₁ h₁ hl₁
  apply aside_seq (only_convergeDomains _) h₁ hl₁
  intro _ y₂ h₂ hl₂
  apply aside_seq (only_convergeDomains _) h₂ hl₂
  intro _ y₃ h₃ hl₃
  apply aside_seq (only_convergeSetting _ _) h₃ hl₃
  intro _ y hy hl
  have haccounts : wpOk steady (fun z => spec.Apart → Lasting spec.domains x z)
      (convergeAccounts rt spec) (fun _ z => ∀ d ∈ spec.domains, ∀ n,
        Holds z.1 (catchAll d) n ↔ HeldAfter spec x.1 (catchAll d) n) y := by
    have h := convergeAccounts_spec rt spec y
      fun ha => ⟨(Grown.refl _).kept, (hl ha).past⟩
    rw [hy.accounts] at h
    refine wp_always_mono h fun z hz ha => ⟨?_, (hz ha).past⟩
    rw [← hy.accounts]
    exact (hz ha).start
  apply wpOk_seq haccounts
  intro _ z hlz hheld
  have hreload : Aside (.mail .reload) := trivial
  have hrest : ((convergeSettings rt spec.domains.head? spec.publicUrl).bind fun _ =>
      reload rt).Only Aside := by
    apply Prog.only_bind
    · apply Prog.only_bind (only_convergeSetting _ _)
      intro _
      exact Prog.only_bind (only_convergeSetting _ _) fun _ => only_convergeSetting _ _
    · exact fun _ => only_checked hreload
  have hpost : wpOk steady (Same z) ((convergeSettings rt spec.domains.head? spec.publicUrl).bind
      fun _ => reload rt) (fun _ y => ∀ d ∈ spec.domains, ∀ n,
        Holds y.1 (catchAll d) n ↔ HeldAfter spec x.1 (catchAll d) n) z := by
    apply wpOk_mono (aside_spec hrest z)
    intro _ y hy _
    rw [hy.accounts]
    exact hheld
  exact wp_always_mono hpost fun y hy ha => (hlz ha).grows hy.toGrows

/-! ## Sequences of runs -/

/-- A run of the script, cut where it has no result, with the principals before each of its
operations and the calls whose answers it took for others. -/
structure ConfigureRun (R : Type*) where
  spec : DesiredState
  result : Option (Except String Unit)
  past : List (Accounts R)
  mistaken : List Call

def configureStep (rt : Runtime) (domains : List String) (m : Accounts R) (r : ConfigureRun R)
    (m' : Accounts R) : Prop :=
  r.spec.domains = domains ∧
    Run (mailServer.recorded.logged mistaken) (main rt r.spec) ((m, []), []) r.result
      ((m', r.past), r.mistaken)

/-- Exactly the account that is to have it has the catch-all of every domain. -/
def Converged (spec : DesiredState) (m : Accounts R) : Prop :=
  ∀ d ∈ spec.domains, ∀ n, Holds m (catchAll d) n ↔ n = spec.target

/-- The sink is not the admin, and before the run the catch-all is held by no account but the
one that is to have it or, where a sink is named, the admin's. -/
def Fits (spec : DesiredState) (m : Accounts R) : Prop :=
  ∀ d ∈ spec.domains, spec.Apart ∧ ∀ n, Holds m (catchAll d) n →
    n = spec.target ∨ (spec.catchAllUser.isSome = true ∧ n = spec.admin)

theorem target_ne_admin {spec : DesiredState} (h : spec.Apart)
    (hsink : spec.catchAllUser.isSome = true) : spec.target ≠ spec.admin := by
  obtain ⟨u, hu⟩ := Option.isSome_iff_exists.mp hsink
  intro heq
  have hname := principalName_inj heq
  rw [hu, Option.getD_some] at hname
  exact h (hu.trans (congrArg some hname))

theorem converged_iff_fits {spec : DesiredState} (h : ∀ d ∈ spec.domains, ∀ n,
    Holds m' (catchAll d) n ↔ HeldAfter spec m (catchAll d) n) :
    Converged spec m' ↔ Fits spec m := by
  constructor
  · intro hconv d hd
    have hiff := fun n => (h d hd n).symm.trans (hconv d hd n)
    refine ⟨fun hsame => ?_, fun n hold => ?_⟩
    · have htarget : spec.target = spec.admin := by
        simp [DesiredState.target, DesiredState.admin, hsame]
      exact ((hiff spec.target).mpr rfl).2 (by simp [hsame]) htarget
    · by_cases hadmin : spec.catchAllUser.isSome = true ∧ n = spec.admin
      · exact Or.inr hadmin
      · exact Or.inl ((hiff n).mp ⟨Or.inr hold, fun hsink hn => hadmin ⟨hsink, hn⟩⟩)
  · intro hfits d hd n
    obtain ⟨hapart, hholders⟩ := hfits d hd
    rw [h d hd n]
    constructor
    · rintro ⟨rfl | hold, hne⟩
      · rfl
      · rcases hholders n hold with hn | ⟨hsink, hn⟩
        · exact hn
        · exact absurd hn (hne hsink)
    · rintro rfl
      exact ⟨Or.inl rfl, target_ne_admin hapart⟩

theorem lasting_of_step {domains : List String} {r : ConfigureRun R}
    (h : configureStep rt domains m r m') (hread : r.mistaken = []) (hapart : r.spec.Apart) :
    Lasting domains (m, []) (m', r.past) := by
  have hrun := h.2.silent hread
  have hspec := main_spec rt r.spec (m, [])
    fun _ => ⟨(Grown.refl m).kept, fun _ h => by cases h⟩
  have hlasting := hspec.1 _ hrun.toCut hapart
  rw [h.1] at hlasting
  exact hlasting

/-- The principals at the start and before each operation of a sequence of runs. -/
def passed (m : Accounts R) (l : List (Accounts R × ConfigureRun R)) : List (Accounts R) :=
  m :: l.flatMap fun x => x.2.past

theorem kept_of_trace {domains : List String} {l : List (Accounts R × ConfigureRun R)}
    (h : Trace (configureStep rt domains) m l m₁)
    (hall : ∀ x ∈ l, x.2.mistaken = [] ∧ x.2.spec.Apart) :
    ∀ m' ∈ passed m l, Kept domains m' m₁ := by
  induction h with
  | nil m =>
    intro m' hm'
    obtain rfl := List.mem_singleton.mp hm'
    exact (Grown.refl _).kept
  | @cons m t m₁ r l first rest ih =>
    intro m' hm'
    obtain ⟨hread, hapart⟩ := hall _ List.mem_cons_self
    have hrest := ih fun x hx => hall x (List.mem_cons_of_mem _ hx)
    have hlasting := lasting_of_step first hread hapart
    have hend : Kept domains t m₁ := hrest t List.mem_cons_self
    simp only [passed, List.flatMap_cons, List.mem_cons, List.mem_append] at hm'
    rcases hm' with rfl | hm' | hm'
    · exact hlasting.start.trans hend
    · exact (hlasting.past m' hm').trans hend
    · exact hrest m' (List.mem_cons_of_mem _ hm')

/-- After any runs, a run that completes without a mistaken answer leaves the catch-all with exactly
the account that is to have it just where it fits what the earlier runs have left; and where every
sink is another account than the admin's and no answer is mistaken, somebody still has it at any
step of any run, cut anywhere, after somebody had it at the start or at an earlier step of that run
or of one before. -/
theorem catch_all_converged_iff {domains : List String} {l : List (Accounts R × ConfigureRun R)}
    {r : ConfigureRun R} (hbefore : Trace (configureStep rt domains) m l m₁)
    (hrun : configureStep rt domains m₁ r m₂) (hread : r.mistaken = []) :
    (r.result = some (.ok ()) → (Converged r.spec m₂ ↔ Fits r.spec m₁)) ∧
      ((∀ x ∈ l, x.2.mistaken = [] ∧ x.2.spec.Apart) → r.spec.Apart →
        ∀ m' ∈ passed m l ++ r.past, ∀ d ∈ domains,
          (∃ n, Holds m' (catchAll d) n) → ∃ n, Holds m₂ (catchAll d) n) := by
  constructor
  · intro hcomplete
    have hend := hrun.2.silent hread
    rw [hcomplete] at hend
    have hspec := main_spec rt r.spec (m₁, [])
      fun _ => ⟨(Grown.refl m₁).kept, fun _ h => by cases h⟩
    exact converged_iff_fits (hspec.2 _ _ hend () rfl)
  · intro hall hapart m' hm' d hd hheld
    have hlasting := lasting_of_step hrun hread hapart
    rcases List.mem_append.mp hm' with hm' | hm'
    · exact hlasting.start d hd (kept_of_trace hbefore hall m' hm' d hd hheld)
    · exact hlasting.past m' hm' d hd hheld

/-! ## Two deploys -/

def describe (found : Option (Account Unit)) : Json :=
  match found with
  | none => .object [("error", .string "notFound")]
  | some a => .object [("data", .object [("emails", .array (a.emails.map .string)),
      ("roles", .array (a.roles.map .string))])]

def callAnswer : Call → Accounts Unit → Json × Accounts Unit
  | .getPrincipal name, m => (describe (m name), m)
  | .updatePrincipal name us, m => (.object [], m.updated name us)
  | .deployPrincipal (.individual name emails _ roles), m =>
    (.object [], if (m name).isNone then Function.update m name (some ⟨emails, roles, ()⟩) else m)
  | _, m => (.object [], m)

def obligingAnswer : {β : Type} → Op β → Passing Unit → β × Passing Unit
  | _, .mail c, (m, past) =>
    (.ok ⟨true, "", some (callAnswer c m).1⟩, (callAnswer c m).2, past ++ [m])
  | _, .sleep _, (m, past) => ((), m, past ++ [m])

/-- A mail server that does what it is asked to. -/
def obliging : Oracle Op (Passing Unit × List Call) where
  answer e x := some ((obligingAnswer e x.1).1, (obligingAnswer e x.1).2, x.2)

/-- The accounts after a run of the script on that server. -/
def deployed (rt : Runtime) (spec : DesiredState) (m : Accounts Unit) :
    Option (Except String Unit) × (Passing Unit) × List Call :=
  (main rt spec).exec obliging 400 ((m, []), [])

theorem lists_strings (items : List String) :
    Lists (some (.array (items.map .string))) items := by
  intro s
  have hany : (items.map Json.string).any (fun i => i.asStr == some s) = decide (s ∈ items) := by
    rw [Bool.eq_iff_iff]
    simp [Json.asStr]
  exact congrArg Except.ok hany

theorem describe_describes (found : Option (Account Unit)) :
    Describes found (Reply.data ⟨true, "", some (describe found)⟩) := by
  cases found with
  | none => rfl
  | some a => exact ⟨⟨_, rfl⟩, rfl, lists_strings a.emails, lists_strings a.roles⟩

theorem obliging_step {β : Type} {e : Op β} {x y : Passing Unit × List Call} {b : β}
    (h : obliging.answer e x = some (b, y)) :
    (mailServer.recorded.logged mistaken).step e x b y := by
  cases h
  cases e with
  | sleep ms => exact ⟨⟨rfl, rfl⟩, (List.append_nil _).symm⟩
  | mail c =>
    refine ⟨⟨?_, rfl⟩, ?_⟩
    · cases c with
      | getPrincipal name =>
        refine ⟨rfl, fun r hr _ => ?_⟩
        cases hr
        exact describe_describes (x.1.1 name)
      | updatePrincipal name us => exact Or.inl rfl
      | deployPrincipal p =>
        cases p with
        | domain name => rfl
        | individual name emails description roles =>
          show callStep (.deployPrincipal (.individual name emails description roles)) _ _
            (if (x.1.1 name).isNone then _ else _)
          cases hm : x.1.1 name with
          | none =>
            simp only [callStep, hm]
            exact Or.inl ⟨(), rfl⟩
          | some a =>
            simp only [callStep, hm]
            exact fun _ _ => rfl
      | _ => rfl
    · cases c with
      | deployPrincipal p => cases p <;> exact (List.append_nil _).symm
      | _ => exact (List.append_nil _).symm

/-- Mail for unknown names goes to a mailbox of its own, and later back to the admin. -/
def withSink : DesiredState where
  domains := ["a.org"]
  catchAllUser := some "sink"
  adminUsername := "root"
  publicUrl := "https://mail.a.org"

def withoutSink : DesiredState := { withSink with catchAllUser := none }

def runOf (spec : DesiredState) (m : Accounts Unit) : ConfigureRun Unit where
  spec
  result := (deployed ascii spec m).1
  past := (deployed ascii spec m).2.1.2
  mistaken := (deployed ascii spec m).2.2

theorem runOf_step (spec : DesiredState) (h : spec.domains = ["a.org"]) (m : Accounts Unit) :
    configureStep ascii ["a.org"] m (runOf spec m) (deployed ascii spec m).2.1.1 :=
  ⟨h, exec_run (fun _ _ _ _ h => obliging_step h) _ _ _⟩

def noAccounts : Accounts Unit := fun _ => none

/-- The accounts after a first deploy without a sink. -/
def adminOnly : Accounts Unit := (deployed ascii withoutSink noAccounts).2.1.1

/-- The admin has the catch-all after the first deploy, and the sink after the second. -/
theorem catch_all_converged_iff_sample :
    Converged withSink (deployed ascii withSink adminOnly).2.1.1 := by
  have hfirst := runOf_step withoutSink rfl noAccounts
  have hbefore := catch_all_converged_iff (.nil noAccounts) hfirst (by decide +kernel)
  have hadmin : Converged withoutSink adminOnly := by
    have hapart : withoutSink.catchAllUser ≠ some withoutSink.adminUsername := by decide
    refine (hbefore.1 (by decide +kernel)).mpr fun d _ => ⟨hapart, fun n hold => ?_⟩
    obtain ⟨a, ha, -⟩ := hold
    cases ha
  have hend := catch_all_converged_iff (.cons hfirst (.nil adminOnly))
    (runOf_step withSink rfl adminOnly) (by decide +kernel)
  have hapart : withSink.catchAllUser ≠ some withSink.adminUsername := by decide
  refine (hend.1 (by decide +kernel)).mpr fun d hd => ⟨hapart, fun n hold => Or.inr ⟨rfl, ?_⟩⟩
  exact (hadmin d hd n).mp hold

/-- The sink keeps the catch-all when the admin has it again. -/
theorem sink_not_relieved : ¬ ∀ (rt : Runtime) (domains : List String) (m m₁ m₂ : Accounts Unit)
    (l : List (Accounts Unit × ConfigureRun Unit)) (r : ConfigureRun Unit),
    Trace (configureStep rt domains) m l m₁ → configureStep rt domains m₁ r m₂ →
      r.result = some (.ok ()) → Converged r.spec m₂ := by
  intro h
  have hfirst := runOf_step withSink rfl noAccounts
  generalize hm₁ : (deployed ascii withSink noAccounts).2.1.1 = m₁ at hfirst
  have hsecond := runOf_step withoutSink rfl m₁
  have hcomplete : (runOf withoutSink m₁).result = some (.ok ()) := by
    rw [← hm₁]
    decide +kernel
  have hconv := h _ _ _ _ _ _ _ (.cons hfirst (.nil _)) hsecond hcomplete
  have hsink : (deployed ascii withoutSink m₁).2.1.1 "sink@a.org" =
      some ⟨["sink@a.org", "@a.org"], ["user"], ()⟩ := by
    rw [← hm₁]
    decide +kernel
  have htarget := (hconv "a.org" List.mem_cons_self "sink@a.org").mp ⟨_, hsink, by decide⟩
  exact (show "sink@a.org" ≠ withoutSink.target by decide) htarget

end Foundrix.Stalwart.Configure
