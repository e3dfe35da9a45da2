import Mathlib.Data.Set.Insert
import Foundrix.Effect.Reconcile
import Foundrix.Stalwart.CatchAll
import Foundrix.Text.Infix

/-!
# What a deploy leaves, and what the next one finds

The script runs on every deploy. A complete run brings about what its specification asks for, and
every run after it leaves the server as it is.

* `Prefixes`, `Store`, `store`: the server with its settings, those that it runs on, and its
  domains.
* `Asked`, `Relieved`, `Prepared`, `Settled`: what the specification asks for.
* `convergeAccount_reconciles`, `convergeSetting_reconciles`, …, `main_reconciles`: the parts of
  the script and the whole.
* `deploys_settle`: sequences of deploys.
-/

namespace Foundrix.Stalwart.Configure

open Text Effect Machine

/-! ## The server -/

/-- Which settings the server takes a prefix for, its own one among them. -/
structure Prefixes where
  under : String → String → Bool
  self : ∀ key, under key key = true
  starts : ∀ key k, under key k = true → startsWith k key = true

abbrev Settings := String → Option String

structure Store (R : Type*) where
  accounts : Accounts R
  domains : Set String
  settings : Settings
  /-- The settings as of the last reload. -/
  running : Settings

variable {R : Type*} {rt : Runtime}

namespace Prefixes

variable (u : Prefixes)

/-- An object with the settings under a key. -/
def Listed (settings : Settings) (key : String) (items : Json) : Prop :=
  ∃ entries, items = .object entries ∧
    ∀ k, items.get k = if u.under key k then (settings k).map .string else none

def cleared (key : String) (settings : Settings) : Settings :=
  fun k => if u.under key k then none else settings k

/-- There are settings of the signature. -/
def Signed (settings : Settings) (algorithm : Algorithm) (domain : String) : Prop :=
  ∃ k, u.under s!"signature.{algorithm.lower}-{domain}" k = true ∧ (settings k).isSome = true

end Prefixes

/-- Where no key is set twice, each has its value; what becomes of one that is set to `undefined`
is up to the server. -/
def Stored (values : List (String × Option String)) (settings settings' : Settings) : Prop :=
  (∀ k, k ∉ values.map Prod.fst → settings' k = settings k) ∧
    ((values.map Prod.fst).Nodup → ∀ k v, (k, some v) ∈ values → settings' k = some v)

/-- Settings of signatures are added or changed, and no others. -/
structure MoreSigned (settings settings' : Settings) : Prop where
  others : ∀ k, startsWith k "signature." = false → settings' k = settings k
  stay : ∀ k, (settings k).isSome = true → (settings' k).isSome = true

/-- Done, or neither done nor acknowledged. -/
def Takes (answer : Except String Reply) (s s' : Store R) (done : Store R → Prop) : Prop :=
  done s' ∨ (¬ Acknowledged answer ∧ s' = s)

/-- `data.items ?? {}`. -/
def itemsOf (data : Json) : Json :=
  match data.get "items" with
  | none | some .null => .object []
  | some items => items

def storeCall (u : Prefixes) : Call → Store R → Except String Reply → Store R → Prop
  | .probe, s, _, s' | .getDkimPublicKey _, s, _, s' => s' = s
  | .getSettings key, s, answer, s' =>
    s' = s ∧ (Acknowledged answer → ∀ r, answer = .ok r → u.Listed s.settings key (itemsOf r.data))
  | .deployPrincipal (.domain name), s, answer, s' =>
    Takes answer s s' fun t => t = { s with domains := insert name s.domains }
  | .setSettings values, s, answer, s' =>
    Takes answer s s' fun t => ∃ settings, Stored values s.settings settings ∧
      t = { s with settings }
  | .clearSettings key, s, answer, s' =>
    Takes answer s s' fun t => t = { s with settings := u.cleared key s.settings }
  | .createDkim algorithm domain _, s, answer, s' =>
    ∃ settings, MoreSigned s.settings settings ∧ s' = { s with settings } ∧
      (Acknowledged answer → u.Signed settings algorithm domain)
  | .reload, s, answer, s' => Takes answer s s' fun t => t = { s with running := s.settings }
  | c, s, answer, s' => ∃ accounts, callStep c s.accounts answer accounts ∧ s' = { s with accounts }

def storeStep (u : Prefixes) : {β : Type} → Op β → Store R → β → Store R → Prop
  | _, .mail c, s, answer, s' => storeCall u c s answer s'
  | _, .sleep _, s, _, s' => s' = s

def store (u : Prefixes) : Handler Op (Store R) where
  step e s b s' := storeStep u e s b s'

/-- The calls that throw unless their answer is ok, whatever its body says. -/
def demanded : Call → Bool
  | .probe | .getPrincipal _ | .getDkimPublicKey _ => false
  | _ => true

/-- The call whose answer the script takes for another one: the read of a principal that is there is
refused, or one of the other calls is answered ok and with an error. -/
def misread : {β : Type} → Op β → Store R → β → Option Call
  | _, .mail (.getPrincipal name), s, answer =>
    match answer with
    | .ok r => if !r.ok && (s.accounts name).isSome then some (.getPrincipal name) else none
    | .error _ => none
  | _, .mail c, _, answer => if demanded c && swallowed answer then some c else none
  | _, .sleep _, _, _ => none

/-- The runs in which no answer is taken for another one. -/
def steadyStore (u : Prefixes) : Handler Op (Store R) := (store u).silent misread

/-! ## What is asked for -/

/-- The account has these addresses and the default role. -/
def Asked (name : String) (es : List String) (m : Accounts R) : Prop :=
  ∃ a, m name = some a ∧ (∀ e ∈ es, e ∈ a.emails) ∧ defaultRole ∈ a.roles

/-- The account has none of these addresses. -/
def Relieved (name : String) (es : List String) (m : Accounts R) : Prop :=
  ∀ e ∈ es, ¬ Holds m e name

def AccountsSettled (spec : DesiredState) (m : Accounts R) : Prop :=
  (∀ u, spec.catchAllUser = some u →
      Asked (principalName u spec.domains) (sinkEmails u spec.domains) m) ∧
    Asked spec.admin (adminEmails spec.domains spec.catchAllUser) m ∧
    (spec.catchAllUser.isSome = true → Relieved spec.admin (spec.domains.map catchAll) m)

def Prepared (u : Prefixes) (domain : String) (s : Store R) : Prop :=
  domain ∈ s.domains ∧ u.Signed s.settings .rsa domain ∧ u.Signed s.settings .ed25519 domain

/-- The settings that the script converges. -/
def DesiredState.settings (spec : DesiredState) (reporting : String) : List (String × String) :=
  [("auth.arc.seal", desiredArcSeal), ("session.mta-sts.mode", "enforce"),
    ("report.domain", reporting), ("http.url", spec.publicUrl)]

/-- Everything that the specification asks for is there, and the server runs on its settings. -/
structure Settled (u : Prefixes) (spec : DesiredState) (s : Store R) : Prop where
  domains : ∀ d ∈ spec.domains ++ spec.extraDomains, Prepared u d s
  settings : ∀ d, spec.domains.head? = some d → ∀ p ∈ spec.settings d, s.settings p.1 = some p.2
  accounts : AccountsSettled spec s.accounts
  running : s.running = s.settings

/-! ## Calls -/

section Calls

variable {u : Prefixes} {s : Store R} {name key : String} {es : List String}

/-- An answer that is ok is true where it is not taken for another one. -/
theorem acknowledged_of_ok {c : Call} (hc : demanded c = true) {r : Reply} (hok : r.ok = true)
    (h : misread (.mail c) s (.ok r) = none) : Acknowledged (.ok r) := by
  refine ⟨⟨r, rfl, hok⟩, ?_⟩
  have hlogged : (if demanded c && swallowed (.ok r) then some c else none) = none := by
    cases c with
    | getPrincipal name => cases hc
    | _ => exact h
  rw [hc, Bool.true_and] at hlogged
  cases hs : swallowed (.ok r) with
  | false => rfl
  | true =>
    rw [hs] at hlogged
    cases hlogged

/-- A call that throws unless its answer is ok. -/
theorem call_spec {c : Call} {failure : String} {I Q : Store R → Prop}
    (hc : demanded c = true) (hI : I s)
    (h : ∀ answer s', storeCall u c s answer s' → I s' ∧ (Acknowledged answer → Q s')) :
    wpOk (steadyStore u) I ((demand rt c failure : Script Json).bind fun _ => .pure ())
      (fun _ s' => Q s') s := by
  refine wp_op.mpr ⟨hI, fun answer s' hs => ?_⟩
  obtain ⟨hI', hQ⟩ := h answer s' hs.1
  cases answer with
  | error e => exact wpOk_fail hI'
  | ok r =>
    show wpOk _ _ (Prog.bind (if (!r.ok) = true then _ else _) _) _ _
    cases hok : r.ok with
    | false => exact wpOk_fail hI'
    | true => exact wpOk_pure hI' (hQ (acknowledged_of_ok hc hok hs.2))

theorem takes_spec {c : Call} {failure : String} {I Q done : Store R → Prop}
    (hdemanded : demanded c = true) (hI : I s)
    (hc : ∀ answer s', storeCall u c s answer s' → Takes answer s s' done)
    (h : ∀ s', done s' → I s' ∧ Q s') :
    wpOk (steadyStore u) I ((demand rt c failure : Script Json).bind fun _ => .pure ())
      (fun _ s' => Q s') s := by
  apply call_spec hdemanded hI
  intro answer s' hs
  rcases hc answer s' hs with hdone | ⟨hnot, rfl⟩
  · exact ⟨(h s' hdone).1, fun _ => (h s' hdone).2⟩
  · exact ⟨hI, fun hack => absurd hack hnot⟩

theorem getSettings_eq (key : String) : (getSettings rt key : Script Json) =
    (demand rt (.getSettings key) "Failed to list settings").bind
      fun data => .pure (itemsOf data) := by
  show Prog.bind _ _ = _
  congr 1
  funext data
  unfold itemsOf
  cases data.get "items" with
  | none => rfl
  | some items => cases items <;> rfl

theorem getSettings_spec (key : String) (s : Store R) :
    wpOk (steadyStore u) (fun s' => s' = s) (getSettings rt key : Script Json)
      (fun items _ => u.Listed s.settings key items) s := by
  rw [getSettings_eq]
  refine wp_op.mpr ⟨rfl, fun answer s' hs => ?_⟩
  obtain ⟨⟨hsame, hlisted⟩, hread⟩ := hs
  cases answer with
  | error e => exact wpOk_fail hsame
  | ok r =>
    show wpOk _ _ (Prog.bind (if (!r.ok) = true then _ else _) _) _ _
    cases hok : r.ok with
    | false => exact wpOk_fail hsame
    | true => exact wpOk_pure hsame (hlisted (acknowledged_of_ok rfl hok hread) r rfl)

/-- What follows the settings under a key. -/
theorem getSettings_seq {α : Type} {f : Json → Script α} {I : Store R → Prop}
    {Q : α → Store R → Prop} (hI : I s)
    (h : ∀ items, u.Listed s.settings key items → wpOk (steadyStore u) I (f items) Q s) :
    wpOk (steadyStore u) I ((getSettings rt key).bind f) Q s := by
  apply wpOk_seq_within (getSettings_spec key s)
  · rintro s' rfl
    exact hI
  · rintro items s' rfl hlisted
    exact h items hlisted

theorem read_spec (name : String) (s : Store R) :
    wpOk (steadyStore u) (fun s' => s' = s) (getPrincipal name : Script (Option Json))
      (fun found _ => match s.accounts name with
        | some a => ∃ data, found = some data ∧ Tells a data
        | none => found = none) s := by
  refine wp_op.mpr ⟨rfl, fun answer s' hs => ?_⟩
  obtain ⟨⟨accounts, ⟨haccounts, hdescribed⟩, hs'⟩, hread⟩ := hs
  have hsame : s' = s := by rw [hs', haccounts]
  cases answer with
  | error e => exact wpOk_fail hsame
  | ok r =>
    show wpOk _ _ (if (!r.ok) = true then _ else _) _ _
    cases hok : r.ok with
    | false =>
      refine wpOk_pure hsame ?_
      cases hm : s.accounts name with
      | none => rfl
      | some a =>
        change (if !r.ok && (s.accounts name).isSome then some (Call.getPrincipal name) else none) =
          none at hread
        rw [hok, hm] at hread
        cases hread
    | true =>
      have hdata := hdescribed r rfl hok
      show wpOk _ _ (if (r.data.get "error").isSome = true then _ else _) _ _
      cases hm : s.accounts name with
      | none =>
        rw [hm] at hdata
        rw [if_pos (show (r.data.get "error").isSome = true from hdata)]
        exact wpOk_pure hsame rfl
      | some a =>
        rw [hm] at hdata
        have hfound : ¬ (r.data.get "error").isSome = true := by
          rw [hdata.found]
          exact nofun
        rw [if_neg hfound]
        exact wpOk_pure hsame ⟨r.data, rfl, hdata⟩

/-- What follows the read of a principal, by whether it is there. -/
theorem read_seq {α : Type} {f : Option Json → Script α} {I : Store R → Prop}
    {Q : α → Store R → Prop} (hI : I s)
    (hnone : s.accounts name = none → wpOk (steadyStore u) I (f none) Q s)
    (hsome : ∀ a entries, s.accounts name = some a → Tells a (.object entries) →
      wpOk (steadyStore u) I (f (some (.object entries))) Q s) :
    wpOk (steadyStore u) I ((getPrincipal name).bind f) Q s := by
  apply wpOk_seq_within (read_spec name s)
  · rintro s' rfl
    exact hI
  · rintro found s' rfl hfound
    cases hm : s'.accounts name with
    | none =>
      rw [hm] at hfound
      obtain rfl : found = none := hfound
      exact hnone hm
    | some a =>
      rw [hm] at hfound
      obtain ⟨data, rfl, htells⟩ := hfound
      obtain ⟨entries, rfl⟩ := htells.object
      exact hsome a entries hm htells

/-! ## Domains and settings -/

theorem convergeDomain_reconciles (domain : String) :
    Reconciles (steadyStore u) (convergeDomain rt domain) fun s : Store R =>
      domain ∈ s.domains := by
  apply reconciles_of_spec
  intro s
  refine takes_spec rfl (fun _ => rfl) (fun _ _ hs => hs) ?_
  rintro s' rfl
  refine ⟨fun hmem => ?_, Set.mem_insert _ _⟩
  rw [Set.insert_eq_of_mem hmem]

/-- There are keys in the listing just where there are settings of the signature. -/
theorem hasKeys_iff {settings : Settings} {items : Json} (h : u.Listed settings key items) :
    hasKeys items = true ↔ ∃ k, u.under key k = true ∧ (settings k).isSome = true := by
  obtain ⟨entries, rfl, hget⟩ := h
  constructor
  · intro hkeys
    cases entries with
    | nil => cases hkeys
    | cons e entries =>
      have hfirst := hget e.1
      rw [Json.get, List.lookup_cons_self] at hfirst
      by_cases hunder : u.under key e.1 = true
      · rw [if_pos hunder] at hfirst
        refine ⟨e.1, hunder, ?_⟩
        cases hk : settings e.1 with
        | none =>
          rw [hk] at hfirst
          cases hfirst
        | some v => rfl
      · rw [if_neg hunder] at hfirst
        cases hfirst
  · intro ⟨k, hunder, hk⟩
    cases entries with
    | cons e entries => rfl
    | nil =>
      have hnone := hget k
      rw [if_pos hunder] at hnone
      obtain ⟨v, hv⟩ := Option.isSome_iff_exists.mp hk
      rw [hv] at hnone
      cases hnone

theorem convergeDkimSignature_reconciles (algorithm : Algorithm) (domain selector : String) :
    Reconciles (steadyStore u) (convergeDkimSignature rt algorithm domain selector)
      fun s : Store R => u.Signed s.settings algorithm domain := by
  apply reconciles_of_spec
  intro s
  refine getSettings_seq (fun _ => rfl) ?_
  intro items hlisted
  show wpOk _ _ (if hasKeys items = true then _ else _) _ _
  split
  · rename_i hkeys
    exact wpOk_pure (fun _ => rfl) ((hasKeys_iff hlisted).mp hkeys)
  · rename_i hkeys
    have hnot : ¬ u.Signed s.settings algorithm domain :=
      fun hsigned => hkeys ((hasKeys_iff hlisted).mpr hsigned)
    have hcreate : wpOk (steadyStore u)
        (fun s' => u.Signed s.settings algorithm domain → s' = s)
        (createDkim rt algorithm domain selector : Script Unit)
        (fun _ s' => u.Signed s'.settings algorithm domain) s := by
      apply call_spec rfl fun _ => rfl
      intro answer s' hs
      obtain ⟨settings, -, rfl, hsigned⟩ := hs
      exact ⟨fun h => absurd h hnot, hsigned⟩
    apply wpOk_seq hcreate
    intro _ s' _ hsigned
    refine wp_op.mpr ⟨fun h => absurd h hnot, fun answer s'' hs => ?_⟩
    obtain ⟨hsame, -⟩ := hs
    obtain rfl : s'' = s' := hsame
    cases answer with
    | error e => exact wpOk_fail fun h => absurd h hnot
    | ok r => exact wpOk_pure (fun h => absurd h hnot) hsigned

theorem convergeSetting_reconciles (key value : String) :
    Reconciles (steadyStore u) (convergeSetting rt key (some value)) fun s : Store R =>
      s.settings key = some value := by
  apply reconciles_of_spec
  intro s
  refine getSettings_seq (fun _ => rfl) ?_
  rintro items ⟨entries, rfl, hget⟩
  have hcurrent := hget key
  rw [if_pos (u.self key)] at hcurrent
  have hdiffers : settingDiffers (.object entries) key (some value) = true ↔
      s.settings key ≠ some value := by
    unfold settingDiffers
    rw [hcurrent]
    cases hk : s.settings key with
    | none => simp
    | some v => simp
  show wpOk _ _ (if settingDiffers _ key (some value) = true then _ else _) _ _
  split
  · rename_i h
    have hnot := hdiffers.mp h
    have hclear : wpOk (steadyStore u) (fun s' => s.settings key = some value → s' = s)
        (clearSettings rt key : Script Unit) (fun _ _ => True) s := by
      refine takes_spec rfl (fun _ => rfl) (fun _ _ hs => hs) ?_
      intro s' _
      exact ⟨fun h => absurd h hnot, trivial⟩
    apply wpOk_seq hclear
    intro _ t _ _
    refine takes_spec rfl (fun h => absurd h hnot) (fun _ _ hs => hs) ?_
    rintro s' ⟨settings, ⟨-, hvalues⟩, rfl⟩
    exact ⟨fun h => absurd h hnot, hvalues (by simp) _ _ (List.mem_singleton_self _)⟩
  · rename_i h
    have hsame : s.settings key = some value := by
      by_contra hne
      exact h (hdiffers.mpr hne)
    exact wpOk_pure (fun _ => rfl) hsame

theorem reload_reconciles :
    Reconciles (steadyStore u) (reload rt : Script Unit) fun s : Store R =>
      s.running = s.settings := by
  apply reconciles_of_spec
  intro s
  refine takes_spec rfl (fun _ => rfl) (fun _ _ hs => hs) ?_
  rintro s' rfl
  refine ⟨fun h => ?_, rfl⟩
  obtain ⟨accounts, domains, settings, running⟩ := s
  obtain rfl : running = settings := h
  rfl

/-! ## Accounts -/

theorem role_applyAll_adds {us : List Update} (h : ∀ u ∈ us, u.action = .addItem) (r : String)
    (a : Account R) : r ∈ (applyAll us a).roles ↔ r ∈ a.roles ∨ ⟨.addItem, .roles, r⟩ ∈ us := by
  induction us generalizing a with
  | nil => simp [applyAll]
  | cons v us ih =>
    have hrest := ih (fun w hw => h w (List.mem_cons_of_mem v hw)) (v.apply a)
    have hv : r ∈ (v.apply a).roles ↔ r ∈ a.roles ∨ v = ⟨.addItem, .roles, r⟩ := by
      obtain ⟨action, field, value⟩ := v
      obtain rfl : action = .addItem := h _ List.mem_cons_self
      cases field with
      | emails => simp [Update.apply]
      | roles =>
        simp only [Update.apply, Action.apply, Update.mk.injEq, true_and]
        split
        · rename_i hmem
          constructor
          · exact Or.inl
          · rintro (hr | rfl)
            · exact hr
            · exact hmem
        · simp [eq_comm]
    show r ∈ (applyAll us (v.apply a)).roles ↔ _
    rw [hrest, hv, List.mem_cons, or_assoc, eq_comm]

theorem roles_applyAll_removes (l : List String) (a : Account R) :
    (applyAll (l.map fun v => Update.mk .removeItem .emails v) a).roles = a.roles := by
  induction l generalizing a with
  | nil => rfl
  | cons v l ih => exact ih _

/-- Only this account was changed, and it has what it had but for these addresses. -/
structure ChangedBut (name : String) (es : List String) (m m' : Accounts R) : Prop where
  others : ∀ n, n ≠ name → m' n = m n
  own : ∀ a, m name = some a → ∃ a', m' name = some a' ∧
    (∀ e ∈ a.emails, e ∉ es → e ∈ a'.emails) ∧ ∀ r ∈ a.roles, r ∈ a'.roles

theorem ChangedBut.refl (name : String) (es : List String) (m : Accounts R) :
    ChangedBut name es m m :=
  ⟨fun _ _ => rfl, fun a ha => ⟨a, ha, fun _ he _ => he, fun _ hr => hr⟩⟩

/-- What is asked for stays where none of it is taken away. -/
theorem ChangedBut.asked {m m' : Accounts R} {n : String} {es' : List String}
    (h : ChangedBut name es m m') (hapart : n = name → ∀ e ∈ es', e ∉ es) (ha : Asked n es' m) :
    Asked n es' m' := by
  obtain ⟨a, hm, hemails, hrole⟩ := ha
  by_cases hn : n = name
  · obtain ⟨a', ha', hkept, hroles⟩ := h.own a (hn ▸ hm)
    exact ⟨a', hn ▸ ha', fun e he => hkept e (hemails e he) (hapart hn e he), hroles _ hrole⟩
  · exact ⟨a, (h.others n hn).trans hm, hemails, hrole⟩

/-- Without updates an account has all that is asked for, and else it has not. -/
theorem missingUpdates_isEmpty {name : String} {es : List String} {m : Accounts R} {a : Account R}
    (hm : m name = some a) : (missingUpdates a es).isEmpty = true ↔ Asked name es m := by
  rw [List.isEmpty_iff, List.eq_nil_iff_forall_not_mem]
  constructor
  · intro hnone
    refine ⟨a, hm, fun e he => ?_, ?_⟩
    · by_contra hnot
      exact hnone _ ((missing_email e).mpr ⟨he, hnot⟩)
    · by_contra hnot
      exact hnone _ (missing_role.mpr hnot)
  · rintro ⟨a', ha', hasked, hrole⟩ v hv
    obtain rfl : a' = a := Option.some.inj (ha'.symm.trans hm)
    rcases mem_missingUpdates.mp hv with ⟨e, -, he, hnot⟩ | ⟨-, hnot⟩
    · exact hnot (hasked e he)
    · exact hnot hrole

/-- Updates that add what is missing leave an account that has all that is asked for. -/
theorem asked_updated {name : String} {es : List String} {m : Accounts R} {a : Account R}
    (hm : m name = some a) : Asked name es (m.updated name (missingUpdates a es)) ∧
      ChangedBut name [] m (m.updated name (missingUpdates a es)) := by
  have hown : m.updated name (missingUpdates a es) name =
      some (applyAll (missingUpdates a es) a) := by
    simp [Accounts.updated, hm]
  refine ⟨⟨_, hown, fun e he => ?_, ?_⟩, fun n hn => if_neg hn, fun a' ha' => ?_⟩
  · rw [mem_applyAll_adds missingUpdates_add, missing_email]
    by_cases hold : e ∈ a.emails
    · exact Or.inl hold
    · exact Or.inr ⟨he, hold⟩
  · rw [role_applyAll_adds missingUpdates_add, missing_role]
    exact Classical.em _
  · obtain rfl : a' = a := Option.some.inj (ha'.symm.trans hm)
    refine ⟨_, hown, fun e he _ => ?_, fun r hr => ?_⟩
    · exact (mem_applyAll_adds missingUpdates_add e a').mpr (Or.inl he)
    · exact (role_applyAll_adds missingUpdates_add r a').mpr (Or.inl hr)

theorem convergeAccount_asks (name : String) (es : List String) (description : String)
    (s : Store R) :
    wpOk (steadyStore u) (fun s' => Asked name es s.accounts → s' = s)
      (convergeAccount rt name es description)
      (fun _ s' => Asked name es s'.accounts ∧ ChangedBut name [] s.accounts s'.accounts ∧
        ∃ accounts, s' = { s with accounts }) s := by
  refine read_seq (fun _ => rfl) ?_ ?_
  · intro hm
    have hnot : ¬ Asked name es s.accounts := by
      rintro ⟨a, ha, -⟩
      rw [hm] at ha
      cases ha
    apply call_spec rfl fun _ => rfl
    rintro answer s' ⟨accounts, hs, rfl⟩
    refine ⟨fun h => absurd h hnot, fun hack => ?_⟩
    have hs : (∃ rest, accounts = Function.update s.accounts name
          (some ⟨es, [defaultRole], rest⟩)) ∨ (¬ Acknowledged answer ∧ accounts = s.accounts) := by
      simpa only [callStep, hm] using hs
    rcases hs with ⟨rest, rfl⟩ | ⟨hrefused, -⟩
    · refine ⟨⟨_, Function.update_self _ _ _, fun _ he => he, List.mem_singleton_self _⟩, ?_, _, rfl⟩
      refine ⟨fun n hn => Function.update_of_ne hn _ _, fun a ha => ?_⟩
      rw [hm] at ha
      cases ha
    · exact absurd hack hrefused
  · intro a entries hm htells
    show wpOk _ _ (Prog.bind (itemsIn false _ es) _) _ s
    rw [itemsIn_eq htells.emails false es]
    show wpOk _ _ (Prog.bind (Prog.orFail (includes _ defaultRole)) _) _ s
    rw [htells.roles defaultRole]
    show wpOk (steadyStore u) (fun s' => Asked name es s.accounts → s' = s)
      (if (missingUpdates a es).isEmpty = true then pure ()
        else updatePrincipal rt name (missingUpdates a es))
      (fun _ s' => Asked name es s'.accounts ∧ ChangedBut name [] s.accounts s'.accounts ∧
        ∃ accounts, s' = { s with accounts }) s
    split
    · rename_i hnil
      refine wpOk_pure (fun _ => rfl) ⟨?_, .refl _ _ _, s.accounts, rfl⟩
      exact (missingUpdates_isEmpty hm).mp hnil
    · rename_i hne
      have hnot : ¬ Asked name es s.accounts := fun h => hne ((missingUpdates_isEmpty hm).mpr h)
      apply call_spec rfl fun _ => rfl
      rintro answer s' ⟨accounts, hs, rfl⟩
      refine ⟨fun h => absurd h hnot, fun hack => ?_⟩
      rcases hs with rfl | ⟨hrefused, -⟩
      · exact ⟨(asked_updated hm).1, (asked_updated hm).2, _, rfl⟩
      · exact absurd hack hrefused

theorem removeAddresses_relieves (name : String) (es : List String) (s : Store R) :
    wpOk (steadyStore u) (fun s' => Relieved name es s.accounts → s' = s)
      (removeAddresses rt name es)
      (fun _ s' => Relieved name es s'.accounts ∧ ChangedBut name es s.accounts s'.accounts ∧
        ∃ accounts, s' = { s with accounts }) s := by
  refine read_seq (fun _ => rfl) ?_ ?_
  · intro hm
    refine wpOk_pure (fun _ => rfl) ⟨fun e _ hold => ?_, .refl _ _ _, s.accounts, rfl⟩
    obtain ⟨a, ha, -⟩ := hold
    rw [hm] at ha
    cases ha
  · intro a entries hm htells
    show wpOk _ _ (Prog.bind (itemsIn true _ es) _) _ s
    rw [itemsIn_eq htells.emails true es]
    generalize hpresent : es.filter (fun i => decide (i ∈ a.emails) == true) = present
    have hmem : ∀ e, e ∈ present ↔ e ∈ es ∧ e ∈ a.emails := by
      intro e
      simp [← hpresent]
    have hempty : present = [] ↔ Relieved name es s.accounts := by
      constructor
      · rintro hnil e he ⟨a', ha', hin⟩
        obtain rfl : a' = a := Option.some.inj (ha'.symm.trans hm)
        have hin := (hmem e).mpr ⟨he, hin⟩
        rw [hnil] at hin
        cases hin
      · intro hrelieved
        apply List.eq_nil_iff_forall_not_mem.mpr
        intro e he
        exact hrelieved e ((hmem e).mp he).1 ⟨a, hm, ((hmem e).mp he).2⟩
    show wpOk _ _ (if present.isEmpty = true then _ else _) _ s
    split
    · rename_i hnil
      exact wpOk_pure (fun _ => rfl)
        ⟨hempty.mp (List.isEmpty_iff.mp hnil), .refl _ _ _, s.accounts, rfl⟩
    · rename_i hne
      have hnot : ¬ Relieved name es s.accounts :=
        fun h => hne (List.isEmpty_iff.mpr (hempty.mpr h))
      apply call_spec rfl fun _ => rfl
      rintro answer s' ⟨accounts, hs, rfl⟩
      refine ⟨fun h => absurd h hnot, fun hack => ?_⟩
      rcases hs with rfl | ⟨hrefused, -⟩
      · refine ⟨fun e he hold => ?_, ⟨fun n hn => if_neg hn, fun a' ha' => ?_⟩, _, rfl⟩
        · obtain ⟨hin, hout⟩ := (mem_applyAll_removes e a).mp ((holds_updated hm).mp hold)
          exact hout ((hmem e).mpr ⟨he, hin⟩)
        · obtain rfl : a' = a := Option.some.inj (ha'.symm.trans hm)
          refine ⟨_, by simp [Accounts.updated, hm]; rfl, fun e he hout => ?_, fun r hr => ?_⟩
          · exact (mem_applyAll_removes e a').mpr ⟨he, fun hin => hout ((hmem e).mp hin).1⟩
          · rw [roles_applyAll_removes]
            exact hr
      · exact absurd hack hrefused

theorem convergeAccount_reconciles (name : String) (es : List String) (description : String) :
    Reconciles (steadyStore u) (convergeAccount rt name es description)
      fun s : Store R => Asked name es s.accounts :=
  reconciles_of_spec fun s =>
    wpOk_mono (convergeAccount_asks name es description s) fun _ _ _ h => h.1

theorem removeAddresses_reconciles (name : String) (es : List String) :
    Reconciles (steadyStore u) (removeAddresses rt name es)
      fun s : Store R => Relieved name es s.accounts :=
  reconciles_of_spec fun s => wpOk_mono (removeAddresses_relieves name es s) fun _ _ _ h => h.1

/-! ## What the parts keep -/

variable {G : Store R → Prop}

theorem convergeAccount_keeps_asked {n : String} {es' : List String} (description : String) :
    Keeps (steadyStore u) (convergeAccount rt name es description)
      fun s : Store R => Asked n es' s.accounts := by
  intro s ha
  refine wp_always_mono (wpOk_mono (convergeAccount_asks name es description s) ?_)
    fun _ _ => trivial
  intro _ s' _ h
  exact h.2.1.asked (fun _ _ _ => List.not_mem_nil) ha

theorem removeAddresses_keeps_asked {n : String} {es' : List String}
    (hapart : n = name → ∀ e ∈ es', e ∉ es) :
    Keeps (steadyStore u) (removeAddresses rt name es)
      fun s : Store R => Asked n es' s.accounts := by
  intro s ha
  refine wp_always_mono (wpOk_mono (removeAddresses_relieves name es s) ?_) fun _ _ => trivial
  intro _ s' _ h
  exact h.2.1.asked hapart ha

/-- The accounts are converged aside from everything else. -/
theorem convergeAccounts_keeps {spec : DesiredState}
    (hG : ∀ s accounts, G s → G { s with accounts }) :
    Keeps (steadyStore u) (convergeAccounts rt spec) G := by
  have hconverge : ∀ name es description,
      Keeps (steadyStore u) (convergeAccount rt name es description) G := by
    intro name es description s hs
    refine wp_always_mono (wpOk_mono (convergeAccount_asks name es description s) ?_)
      fun _ _ => trivial
    rintro _ s' - ⟨-, -, accounts, rfl⟩
    exact hG s accounts hs
  have hremove : ∀ name es, Keeps (steadyStore u) (removeAddresses rt name es) G := by
    intro name es s hs
    refine wp_always_mono (wpOk_mono (removeAddresses_relieves name es s) ?_) fun _ _ => trivial
    rintro _ s' - ⟨-, -, accounts, rfl⟩
    exact hG s accounts hs
  have hadmin : ∀ sink, Keeps (steadyStore u)
      (convergeAdminAccount rt spec.adminUsername spec.domains sink) G := by
    intro sink
    apply (hconverge _ _ _).seq
    intro _
    split
    · exact hremove _ _
    · exact keeps_pure _
  unfold convergeAccounts
  cases spec.catchAllUser with
  | none => exact hadmin none
  | some sink => exact (hconverge _ _ _).seq fun _ => hadmin (some sink)

theorem convergeSetting_keeps {value : Option String}
    (hG : ∀ s settings, (∀ k, startsWith k key = false → settings k = s.settings k) → G s →
      G { s with settings }) :
    Keeps (steadyStore u) (convergeSetting rt key value) G := by
  intro s hs
  refine getSettings_seq trivial ?_
  intro items _
  show wpOk _ _ (if settingDiffers items key value = true then _ else _) _ _
  split
  · have hclear : wpOk (steadyStore u) (fun _ => True) (clearSettings rt key : Script Unit)
        (fun _ t => G t) s := by
      refine takes_spec rfl trivial (fun _ _ hs => hs) ?_
      rintro t rfl
      refine ⟨trivial, hG s _ (fun k hk => if_neg fun hunder => ?_) hs⟩
      rw [u.starts key k hunder] at hk
      cases hk
    apply wpOk_seq hclear
    intro _ t _ ht
    refine takes_spec rfl trivial (fun _ _ hs => hs) ?_
    rintro s' ⟨settings, hstored, rfl⟩
    refine ⟨trivial, hG t settings (fun k hk => hstored.1 k ?_) ht⟩
    intro hmem
    obtain rfl : k = key := by simpa using hmem
    rw [startsWith_iff.mpr (List.prefix_refl _)] at hk
    cases hk
  · exact wpOk_pure trivial hs

theorem reload_keeps (hG : ∀ s running, G s → G { s with running }) :
    Keeps (steadyStore u) (reload rt : Script Unit) G := by
  intro s hs
  refine takes_spec rfl trivial (fun _ _ hs => hs) ?_
  rintro s' rfl
  exact ⟨trivial, hG s _ hs⟩

theorem MoreSigned.signed {settings settings' : Settings} (h : MoreSigned settings settings')
    {algorithm : Algorithm} {domain : String} (hs : u.Signed settings algorithm domain) :
    u.Signed settings' algorithm domain := by
  obtain ⟨k, hunder, hk⟩ := hs
  exact ⟨k, hunder, h.stay k hk⟩

/-- What more domains and signatures do not undo. -/
def Extends (G : Store R → Prop) : Prop :=
  ∀ s domains settings, s.domains ⊆ domains → MoreSigned s.settings settings → G s →
    G { s with domains, settings }

theorem extends_prepared (domain : String) : Extends (R := R) (Prepared u domain) :=
  fun _ _ _ hdomains hmore hs =>
    ⟨hdomains hs.1, hmore.signed hs.2.1, hmore.signed hs.2.2⟩

theorem convergeDkimSignature_keeps (hG : Extends G) (algorithm : Algorithm)
    (domain selector : String) :
    Keeps (steadyStore u) (convergeDkimSignature rt algorithm domain selector) G := by
  intro s hs
  refine getSettings_seq trivial ?_
  intro items _
  show wpOk _ _ (if hasKeys items = true then _ else _) _ _
  split
  · exact wpOk_pure trivial hs
  · have hcreate : wpOk (steadyStore u) (fun _ => True)
        (createDkim rt algorithm domain selector : Script Unit) (fun _ t => G t) s := by
      apply call_spec rfl trivial
      rintro answer t ⟨settings, hmore, rfl, -⟩
      exact ⟨trivial, fun _ => hG s s.domains settings subset_rfl hmore hs⟩
    apply wpOk_seq hcreate
    intro _ t _ ht
    refine wp_op.mpr ⟨trivial, fun answer t' hs => ?_⟩
    obtain ⟨hsame, -⟩ := hs
    obtain rfl : t' = t := hsame
    cases answer with
    | error e => exact wpOk_fail trivial
    | ok r => exact wpOk_pure trivial ht

theorem convergeDomain_keeps (hG : Extends G) (domain : String) :
    Keeps (steadyStore u) (convergeDomain rt domain) G := by
  intro s hs
  refine takes_spec rfl trivial (fun _ _ hs => hs) ?_
  rintro s' rfl
  exact ⟨trivial, hG s _ s.settings (Set.subset_insert _ _) ⟨fun _ _ => rfl, fun _ h => h⟩ hs⟩

theorem convergeDomains_keeps (hG : Extends G) (domains : List String) :
    Keeps (steadyStore u) (convergeDomains rt domains) G := by
  apply Keeps.forM
  intro domain _
  apply (convergeDomain_keeps hG domain).seq
  intro _
  exact (convergeDkimSignature_keeps hG _ _ _).seq fun _ => convergeDkimSignature_keeps hG _ _ _

/-! ## The script -/

theorem convergeDomains_reconciles (domains : List String) :
    Reconciles (steadyStore u) (convergeDomains rt domains)
      fun s : Store R => ∀ d ∈ domains, Prepared u d s := by
  apply Reconciles.forM
  · intro d _
    have hdkim : Reconciles (steadyStore u) (convergeDkim rt d) fun s : Store R =>
        u.Signed s.settings .rsa d ∧ u.Signed s.settings .ed25519 d :=
      (convergeDkimSignature_reconciles _ _ _).seq
        (fun _ => convergeDkimSignature_reconciles _ _ _)
        fun _ => convergeDkimSignature_keeps (fun _ _ _ _ hmore hs => hmore.signed hs) _ _ _
    refine (convergeDomain_reconciles d).seq (fun _ => hdkim) fun _ => ?_
    have hdomain : Extends (R := R) fun s => d ∈ s.domains := fun _ _ _ h _ hs => h hs
    exact (convergeDkimSignature_keeps hdomain _ _ _).seq fun _ =>
      convergeDkimSignature_keeps hdomain _ _ _
  · intro a _ b _
    have hprepared : Extends (R := R) (Prepared u a) := extends_prepared a
    apply (convergeDomain_keeps hprepared b).seq
    intro _
    exact (convergeDkimSignature_keeps hprepared _ _ _).seq fun _ =>
      convergeDkimSignature_keeps hprepared _ _ _

/-- Where the sink is not the admin, the accounts are brought to what is asked for. -/
theorem convergeAccounts_reconciles {spec : DesiredState} (hapart : spec.Apart) :
    Reconciles (steadyStore u) (convergeAccounts rt spec)
      fun s : Store R => AccountsSettled spec s.accounts := by
  unfold convergeAccounts convergeAdminAccount AccountsSettled
  cases hsink : spec.catchAllUser with
  | none =>
    have hpure : Reconciles (steadyStore u) (.pure () : Script Unit) fun _ : Store R => True :=
      ⟨fun _ => wpOk_pure trivial trivial, fun _ _ => wpOk_pure rfl trivial⟩
    refine ((convergeAccount_reconciles _ _ _).seq (fun _ => hpure) fun _ => keeps_pure _).congr ?_
    intro s
    simp [DesiredState.admin]
  | some sink =>
    have hadmin : Reconciles (steadyStore u)
        ((convergeAccount rt spec.admin (adminEmails spec.domains (some sink))
          "System administrator").bind fun _ =>
            removeAddresses rt spec.admin (spec.domains.map catchAll)) fun s : Store R =>
        Asked spec.admin (adminEmails spec.domains (some sink)) s.accounts ∧
          Relieved spec.admin (spec.domains.map catchAll) s.accounts := by
      refine (convergeAccount_reconciles _ _ _).seq (fun _ => removeAddresses_reconciles _ _)
        fun _ => removeAddresses_keeps_asked ?_
      intro _ e he hmem
      obtain ⟨d, -, rfl⟩ := List.mem_map.mp hmem
      exact catchAll_notMem_adminEmails sink d spec.domains he
    have hkeeps : Keeps (steadyStore u)
        ((convergeAccount rt spec.admin (adminEmails spec.domains (some sink))
          "System administrator").bind fun _ =>
            removeAddresses rt spec.admin (spec.domains.map catchAll)) fun s : Store R =>
        Asked (principalName sink spec.domains) (sinkEmails sink spec.domains) s.accounts := by
      refine (convergeAccount_keeps_asked _).seq fun _ => removeAddresses_keeps_asked ?_
      intro heq
      exact absurd (hsink.trans (congrArg some (principalName_inj heq))) hapart
    refine ((convergeAccount_reconciles _ _ _).seq (fun _ => hadmin) fun _ => hkeeps).congr ?_
    intro s
    simp

/-- Converging a setting keeps another one whose name does not begin with its own. -/
theorem convergeSetting_keeps_other {value : Option String} {key' v : String}
    (h : startsWith key' key = false) :
    Keeps (steadyStore u) (convergeSetting rt key value) fun s : Store R =>
      s.settings key' = some v :=
  convergeSetting_keeps fun _ _ hsame hs => (hsame key' h).trans hs

/-- Converging a setting whose name is not that of a signature keeps the domains prepared. -/
theorem convergeSetting_keeps_prepared {value : Option String} (domains : List String)
    (h : ∀ k, startsWith k "signature." = true → startsWith k key = false) :
    Keeps (steadyStore u) (convergeSetting rt key value) fun s : Store R =>
      ∀ d ∈ domains, Prepared u d s := by
  apply convergeSetting_keeps
  intro s settings hsame hs d hd
  have hsigned : ∀ algorithm, u.Signed s.settings algorithm d → u.Signed settings algorithm d := by
    intro algorithm ⟨k, hunder, hk⟩
    refine ⟨k, hunder, ?_⟩
    rw [hsame k (h k ?_)]
    · exact hk
    · have hstart := startsWith_iff.mp (u.starts _ k hunder)
      have hhead : "signature.".toList <+: s!"signature.{algorithm.lower}-{d}".toList := by
        simp only [toString, String.toList_append, List.append_assoc]
        exact List.prefix_append _ _
      exact startsWith_iff.mpr (hhead.trans hstart)
  exact ⟨(hs d hd).1, hsigned _ (hs d hd).2.1, hsigned _ (hs d hd).2.2⟩

/-- What the script does until the server answers. -/
def Waiting : {β : Type} → Op β → Prop
  | _, .mail .probe | _, .sleep _ => True
  | _, _ => False

theorem waitForApi_reconciles : Reconciles (steadyStore u) waitForApi fun _ : Store R => True := by
  have honly : waitForApi.Only Waiting := by
    apply Prog.only_iterate
    intro _
    have hprobe : Waiting (.mail .probe) := trivial
    have hready : (isReady : Script Bool).Only Waiting := by
      apply Prog.only_bind (Prog.only_perform hprobe)
      intro r
      cases r <;> trivial
    apply Prog.only_bind hready
    intro ready
    split
    · trivial
    · exact Prog.only_bind (Prog.only_perform trivial) fun _ => trivial
  refine reconciles_of_only honly fun e s b s' he hs => ?_
  obtain ⟨hs, -⟩ := hs
  cases e with
  | sleep ms => exact hs
  | mail c =>
    cases c with
    | probe => exact hs
    | _ => exact he.elim

theorem convergeSettings_reconciles (reporting publicUrl : String) :
    Reconciles (steadyStore u) (convergeSettings rt (some reporting) publicUrl)
      fun s : Store R => s.settings "session.mta-sts.mode" = some "enforce" ∧
        s.settings "report.domain" = some reporting ∧ s.settings "http.url" = some publicUrl := by
  refine (convergeSetting_reconciles _ _).seq (fun _ =>
    (convergeSetting_reconciles _ _).seq (fun _ => convergeSetting_reconciles _ _)
      fun _ => convergeSetting_keeps_other (by decide +kernel)) fun _ => ?_
  exact (convergeSetting_keeps_other (by decide +kernel)).seq
    fun _ => convergeSetting_keeps_other (by decide +kernel)

theorem convergeSettings_keeps {domain : Option String} {publicUrl : String}
    (h : ∀ key ∈ ["session.mta-sts.mode", "report.domain", "http.url"], ∀ value,
      Keeps (steadyStore u) (convergeSetting rt key value) G) :
    Keeps (steadyStore u) (convergeSettings rt domain publicUrl) G :=
  (h _ (by simp) _).seq fun _ => (h _ (by simp) _).seq fun _ => h _ (by simp) _

/-- What follows the domains. -/
def afterDomains (rt : Runtime) (spec : DesiredState) : Script Unit :=
  (convergeArcSeal rt).bind fun _ => (convergeAccounts rt spec).bind fun _ =>
    (convergeSettings rt spec.domains.head? spec.publicUrl).bind fun _ => reload rt

theorem afterDomains_keeps {spec : DesiredState} (domains : List String) :
    Keeps (steadyStore u) (afterDomains rt spec)
      fun s : Store R => ∀ d ∈ domains, Prepared u d s := by
  have hother : ∀ key ∈ ["auth.arc.seal", "session.mta-sts.mode", "report.domain", "http.url"],
      ∀ k, startsWith k "signature." = true → startsWith k key = false := by
    intro key hkey k hk
    obtain ⟨rest, hrest⟩ := startsWith_iff.mp hk
    cases hstart : startsWith k key with
    | false => rfl
    | true =>
      obtain ⟨rest', hrest'⟩ := startsWith_iff.mp hstart
      have hsecond := congrArg (fun l : List Char => l[1]?) (hrest.trans hrest'.symm)
      simp only [List.mem_cons, List.not_mem_nil, or_false] at hkey
      rcases hkey with rfl | rfl | rfl | rfl <;> simp at hsecond
  refine (convergeSetting_keeps_prepared domains (hother _ (by simp))).seq fun _ =>
    (convergeAccounts_keeps fun _ _ hs => hs).seq fun _ =>
      (convergeSettings_keeps fun key hkey _ => ?_).seq fun _ => reload_keeps fun _ _ hs => hs
  exact convergeSetting_keeps_prepared domains (hother key (List.mem_cons_of_mem _ hkey))

theorem afterDomains_reconciles {spec : DesiredState} (hapart : spec.Apart) {d : String}
    (hhead : spec.domains.head? = some d) :
    Reconciles (steadyStore u) (afterDomains rt spec) fun s : Store R =>
      s.settings "auth.arc.seal" = some desiredArcSeal ∧ AccountsSettled spec s.accounts ∧
        (s.settings "session.mta-sts.mode" = some "enforce" ∧
          s.settings "report.domain" = some d ∧ s.settings "http.url" = some spec.publicUrl) ∧
        s.running = s.settings := by
  have hseal : ∀ key ∈ ["session.mta-sts.mode", "report.domain", "http.url"], ∀ value,
      Keeps (steadyStore u) (convergeSetting rt key value) fun s : Store R =>
        s.settings "auth.arc.seal" = some desiredArcSeal := by
    intro key hkey value
    apply convergeSetting_keeps_other
    simp only [List.mem_cons, List.not_mem_nil, or_false] at hkey
    rcases hkey with rfl | rfl | rfl <;> decide +kernel
  unfold afterDomains
  rw [hhead]
  refine (convergeSetting_reconciles _ _).seq (fun _ =>
    (convergeAccounts_reconciles hapart).seq (fun _ =>
      (convergeSettings_reconciles d spec.publicUrl).seq (fun _ => reload_reconciles)
        fun _ => reload_keeps fun _ _ hs => hs) fun _ => ?_) fun _ => ?_
  · exact (convergeSettings_keeps fun _ _ _ => convergeSetting_keeps fun _ _ _ hs => hs).seq
      fun _ => reload_keeps fun _ _ hs => hs
  · exact (convergeAccounts_keeps fun _ _ hs => hs).seq fun _ =>
      (convergeSettings_keeps hseal).seq fun _ => reload_keeps fun _ _ hs => hs

theorem main_reconciles {spec : DesiredState} (hapart : spec.Apart) (hdomains : spec.domains ≠ []) :
    Reconciles (steadyStore u) (main rt spec) (Settled (R := R) u spec) := by
  obtain ⟨d, ds, hd⟩ := List.exists_cons_of_ne_nil hdomains
  have hhead : spec.domains.head? = some d := by
    rw [hd]
    rfl
  have hkeeps : ∀ domains : List String, Keeps (steadyStore u)
      ((convergeDomains rt spec.extraDomains).bind fun _ => afterDomains rt spec)
      fun s : Store R => ∀ d ∈ domains, Prepared u d s := by
    intro domains
    have hextends : Extends (R := R) fun s => ∀ d ∈ domains, Prepared u d s := by
      intro s names settings hnames hmore hs d hd
      exact extends_prepared d s names settings hnames hmore (hs d hd)
    exact (convergeDomains_keeps hextends _).seq fun _ => afterDomains_keeps domains
  have hmain : Reconciles (steadyStore u) (main rt spec) fun s : Store R =>
      True ∧ (∀ d ∈ spec.domains, Prepared u d s) ∧ (∀ d ∈ spec.extraDomains, Prepared u d s) ∧
        s.settings "auth.arc.seal" = some desiredArcSeal ∧ AccountsSettled spec s.accounts ∧
        (s.settings "session.mta-sts.mode" = some "enforce" ∧
          s.settings "report.domain" = some d ∧ s.settings "http.url" = some spec.publicUrl) ∧
        s.running = s.settings :=
    waitForApi_reconciles.seq (fun _ =>
      (convergeDomains_reconciles spec.domains).seq (fun _ =>
        (convergeDomains_reconciles spec.extraDomains).seq
          (fun _ => afterDomains_reconciles hapart hhead)
          fun _ => afterDomains_keeps spec.extraDomains)
        fun _ => hkeeps spec.domains) fun _ => keeps_true
  refine hmain.congr fun s => ?_
  constructor
  · intro h
    have hsettings := h.settings d hhead
    simp only [DesiredState.settings, List.forall_mem_cons] at hsettings
    obtain ⟨hseal, hmode, hreport, hurl, -⟩ := hsettings
    refine ⟨trivial, fun d hd => ?_, fun d hd => ?_, hseal, h.accounts, ⟨hmode, hreport, hurl⟩,
      h.running⟩
    · exact h.domains d (List.mem_append_left _ hd)
    · exact h.domains d (List.mem_append_right _ hd)
  · intro ⟨_, hown, hextra, hseal, haccounts, ⟨hmode, hreport, hurl⟩, hrunning⟩
    refine ⟨fun d hd => ?_, fun d' hd' => ?_, haccounts, hrunning⟩
    · exact (List.mem_append.mp hd).elim (hown d) (hextra d)
    · obtain rfl : d' = d := Option.some.inj (hd'.symm.trans hhead)
      simp only [DesiredState.settings, List.forall_mem_cons]
      exact ⟨hseal, hmode, hreport, hurl, fun _ h => by cases h⟩

/-! ## Deploys -/

/-- How a deploy ends where it is not cut, and the calls whose answers it took for others. -/
abbrev Deploy := Option (Except String Unit) × List Call

def deploy (rt : Runtime) (u : Prefixes) (spec : DesiredState) (s : Store R) (r : Deploy)
    (s' : Store R) : Prop :=
  Run ((store u).logged misread) (main rt spec) (s, []) r.1 (s', r.2)

/-- Where the sink is not the admin and no answer is taken for another one, a deploy that completes
brings everything about that the specification asks for, whatever the deploys before it have left;
and each deploy behind it, however it ends and wherever it is cut, leaves the server exactly as it
is. -/
theorem deploys_settle {spec : DesiredState} (hapart : spec.Apart) (hdomains : spec.domains ≠ [])
    {t s' : Store R} {l : List (Store R × Deploy)}
    (hfirst : deploy rt u spec s (some (.ok ()), []) t) (hafter : Trace (deploy rt u spec) t l s')
    (hread : ∀ x ∈ l, x.2.2 = []) :
    Settled u spec t ∧ ∀ x ∈ visited l s', x = t := by
  have hmain : Reconciles (steadyStore u) (main rt spec) (Settled (R := R) u spec) :=
    main_reconciles hapart hdomains
  apply hmain.settled (hfirst.silent rfl) hafter
  intro x r y hmem hrun
  exact ⟨r.1, hrun.silent (hread _ hmem)⟩

end Calls

/-! ## A deploy on a fresh server -/

/-- A prefix stands for what begins with it. -/
def plain : Prefixes where
  under key k := startsWith k key
  self _ := startsWith_iff.mpr (List.prefix_refl _)
  starts _ _ h := h

/-- A server that can be run. -/
structure Bench where
  accounts : Accounts Unit := noAccounts
  domains : List String := []
  settings : List (String × String) := []
  running : List (String × String) := []

def Bench.store (b : Bench) : Store Unit where
  accounts := b.accounts
  domains := { d | d ∈ b.domains }
  settings k := b.settings.lookup k
  running k := b.running.lookup k

def Bench.answer : Call → Bench → Option (Json × Bench)
  | .deployPrincipal (.domain name), b => some (.object [], { b with domains := name :: b.domains })
  | .getSettings key, b =>
    some (.object [("items", .object ((b.settings.filter fun p => startsWith p.1 key).map
      fun p => (p.1, .string p.2)))], b)
  | .setSettings [(key, some value)], b =>
    some (.object [], { b with settings := (key, value) :: b.settings })
  | .setSettings _, _ => none
  | .clearSettings key, b =>
    some (.object [], { b with settings := b.settings.filter fun p => !startsWith p.1 key })
  | .createDkim algorithm domain selector, b =>
    some (.object [], { b with
      settings := (s!"signature.{algorithm.lower}-{domain}.selector", selector) :: b.settings })
  | .reload, b => some (.object [], { b with running := b.settings })
  | c, b => some ((callAnswer c b.accounts).1, { b with accounts := (callAnswer c b.accounts).2 })

def Bench.step : {β : Type} → Op β → Bench → Option (β × Bench)
  | _, .mail c, b => (Bench.answer c b).map fun r => (.ok ⟨true, "", some r.1⟩, r.2)
  | _, .sleep _, b => some ((), b)

def bench : Oracle Op Bench where
  answer := Bench.step

theorem lookup_filter (q : String → Bool) (l : List (String × String)) (k : String) :
    (l.filter fun p => q p.1).lookup k = if q k = true then l.lookup k else none := by
  induction l with
  | nil => simp
  | cons p l ih =>
    obtain ⟨k', v⟩ := p
    by_cases hk : k = k'
    · subst hk
      cases hq : q k <;> simp [hq, ih]
    · cases hq : q k' <;> simp [hq, List.lookup_cons, beq_false_of_ne hk, ih]

theorem lookup_strings (l : List (String × String)) (k : String) :
    (l.map fun p => (p.1, Json.string p.2)).lookup k = (l.lookup k).map .string := by
  induction l with
  | nil => rfl
  | cons p l ih =>
    rw [List.map_cons, List.lookup_cons, List.lookup_cons, ih]
    cases k == p.1 <;> rfl

theorem bench_listed (settings : List (String × String)) (key : String) :
    plain.Listed (fun k => settings.lookup k) key
      (.object ((settings.filter fun p => startsWith p.1 key).map fun p => (p.1, .string p.2))) := by
  refine ⟨_, rfl, fun k => ?_⟩
  show List.lookup k _ = if startsWith k key = true then _ else _
  rw [lookup_strings, lookup_filter fun k => startsWith k key]
  split <;> rfl

theorem bench_call {c : Call} {b b' : Bench} {j : Json} (h : Bench.answer c b = some (j, b')) :
    storeCall plain c b.store (.ok ⟨true, "", some j⟩) b'.store := by
  have haccounts : callStep c b.accounts (.ok ⟨true, "", some (callAnswer c b.accounts).1⟩)
      (callAnswer c b.accounts).2 :=
    (obliging_step (e := .mail c) (x := ((b.accounts, []), [])) rfl).1.1
  cases c with
  | getPrincipal name | updatePrincipal name us =>
    cases h
    exact ⟨_, haccounts, rfl⟩
  | deployPrincipal p =>
    cases p with
    | individual name emails description roles =>
      cases h
      exact ⟨_, haccounts, rfl⟩
    | domain name =>
      cases h
      refine Or.inl (congrArg (Store.mk _ · _ _) ?_)
      ext d
      exact List.mem_cons
  | getSettings key =>
    cases h
    refine ⟨rfl, fun _ r hr => ?_⟩
    cases hr
    exact bench_listed b.settings key
  | setSettings values =>
    rcases values with _ | ⟨⟨key, _ | value⟩, _ | ⟨q, rest⟩⟩ <;> cases h
    refine Or.inl ⟨_, ⟨fun k hk => ?_, fun _ k v hmem => ?_⟩, rfl⟩
    · have hne : (k == key) = false := by simpa using hk
      simp only [Bench.store, List.lookup_cons, hne]
    · obtain ⟨rfl, rfl⟩ : k = key ∧ v = value := by simpa using hmem
      simp
  | clearSettings key =>
    cases h
    refine Or.inl (congrArg (Store.mk _ _ · _) ?_)
    funext k
    show List.lookup k _ = if startsWith k key = true then _ else _
    rw [lookup_filter fun k => !startsWith k key]
    cases startsWith k key <;> rfl
  | createDkim algorithm domain selector =>
    cases h
    have hstart : startsWith s!"signature.{algorithm.lower}-{domain}.selector" "signature." = true := by
      apply startsWith_iff.mpr
      simp only [toString, String.toList_append, List.append_assoc]
      exact List.prefix_append _ _
    refine ⟨_, ⟨fun k hk => ?_, fun k hk => ?_⟩, rfl, fun _ => ?_⟩
    · have hne : (k == s!"signature.{algorithm.lower}-{domain}.selector") = false := by
        apply beq_false_of_ne
        rintro rfl
        rw [hstart] at hk
        cases hk
      simp only [Bench.store, List.lookup_cons, hne]
    · simp only [List.lookup_cons]
      split
      · rfl
      · exact hk
    · refine ⟨s!"signature.{algorithm.lower}-{domain}.selector", ?_, ?_⟩
      · apply startsWith_iff.mpr
        simp only [toString, String.toList_append]
        exact List.prefix_append _ _
      · simp
  | reload =>
    cases h
    exact Or.inl rfl
  | probe | getDkimPublicKey id =>
    cases h
    rfl

/-- No answer of the bench is taken for another one. -/
theorem bench_heeded {c : Call} {b b' : Bench} {j : Json} (h : Bench.answer c b = some (j, b')) :
    misread (.mail c) b.store (.ok ⟨true, "", some j⟩) = none := by
  cases c with
  | deployPrincipal p =>
    cases p <;>
      · cases h
        rfl
  | setSettings values =>
    rcases values with _ | ⟨⟨key, _ | value⟩, _ | ⟨q, rest⟩⟩ <;> cases h
    rfl
  | _ =>
    cases h
    rfl

theorem bench_step {β : Type} {e : Op β} {b b' : Bench} {a : β}
    (h : bench.answer e b = some (a, b')) :
    ((store plain).logged misread).step e (b.store, []) a (b'.store, []) := by
  cases e with
  | sleep ms =>
    cases h
    exact ⟨rfl, rfl⟩
  | mail c =>
    obtain ⟨⟨j, b''⟩, hanswer, heq⟩ := Option.map_eq_some_iff.mp h
    cases heq
    refine ⟨bench_call hanswer, ?_⟩
    show [] = [] ++ (misread (.mail c) b.store (.ok ⟨true, "", some j⟩)).toList
    rw [bench_heeded hanswer]
    rfl

def benchRun (spec : DesiredState) (b : Bench) : Option (Except String Unit) × Bench :=
  (main ascii spec).exec bench 400 b

theorem benchRun_deploy (spec : DesiredState) (b : Bench) :
    deploy ascii plain spec b.store ((benchRun spec b).1, []) (benchRun spec b).2.store := by
  let H : Handler Op Bench := ⟨fun e b a b' => bench.answer e b = some (a, b')⟩
  have hrun : Run H (main ascii spec) b (benchRun spec b).1 (benchRun spec b).2 :=
    exec_run (fun _ _ _ _ h => h) _ _ _
  exact hrun.map (f := fun b => (b.store, [])) fun _ _ _ _ h => bench_step h

theorem deploys_settle_sample : ∃ t s',
    deploy ascii plain withSink (Bench.store {}) (some (.ok ()), []) t ∧
      deploy ascii plain withSink t (some (.ok ()), []) s' ∧ Settled plain withSink t ∧ s' = t := by
  have hfirst := benchRun_deploy withSink {}
  generalize hb : (benchRun withSink {}).2 = b at hfirst
  have hsecond := benchRun_deploy withSink b
  have hcomplete : (benchRun withSink {}).1 = some (.ok ()) := by decide +kernel
  have hcomplete' : (benchRun withSink b).1 = some (.ok ()) := by
    rw [← hb]
    decide +kernel
  rw [hcomplete] at hfirst
  rw [hcomplete'] at hsecond
  have hapart : withSink.catchAllUser ≠ some withSink.adminUsername := by decide
  obtain ⟨hsettled, hsame⟩ := deploys_settle hapart (List.cons_ne_nil _ _) hfirst
    (.cons hsecond (.nil _)) (by simp)
  exact ⟨_, _, hfirst, hsecond, hsettled, hsame _ (Trace.last_mem _ _)⟩

end Foundrix.Stalwart.Configure
