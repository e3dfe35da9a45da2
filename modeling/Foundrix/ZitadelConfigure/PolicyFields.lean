import Foundrix.ZitadelConfigure.Answers
import Foundrix.ZitadelConfigure.Policies
import Mathlib.Data.List.Basic

/-!
# Fields that a policy keeps

The functions of `services/zitadel-configure.ts` that read a policy and replace it, against a
Zitadel that resets every field which an update leaves out.

* `Resets`, `Instance`, `keeping`: the policies, the values of omitted fields, and the answers.
* `Desired`: which function is called, on which policy, and the fields that it names.
* `run_converge`: a call that ends well, as one step.
* `keeps_fields_iff`: when the fields that are not named keep their values.
-/

namespace Foundrix.ZitadelConfigure

open Text Effect

/-! ## Fields of an object -/

namespace JsObject

theorem lookup_map_set (o : JsObject) (key k : String) (value : Json) :
    (o.map fun e => if e.1 = key then (key, value) else e).lookup k =
      if k = key then (o.lookup k).map fun _ => value else o.lookup k := by
  induction o with
  | nil => simp
  | cons e o ih =>
    obtain ⟨k', v⟩ := e
    rw [List.map_cons]
    by_cases hk' : k' = key
    · subst hk'
      by_cases hk : k = k'
      · simp [hk]
      · rw [if_pos rfl, List.lookup_cons, beq_eq_false_iff_ne.mpr hk, ih, if_neg hk,
          if_neg hk, List.lookup_cons, beq_eq_false_iff_ne.mpr hk]
    · rw [if_neg hk', List.lookup_cons, List.lookup_cons, ih]
      by_cases hk : k = k'
      · simp only [beq_iff_eq.mpr hk, if_neg (hk ▸ hk' : ¬ k = key)]
      · rw [beq_eq_false_iff_ne.mpr hk]

theorem get_set (o : JsObject) (key k : String) (value : Json) :
    (o.set key value).get k = if k = key then some value else o.get k := by
  unfold set get
  split
  · rename_i hany
    rw [lookup_map_set]
    by_cases hk : k = key
    · obtain ⟨e, he, hkey⟩ := List.any_eq_true.mp hany
      have hsome : (o.lookup k).isSome = true := by
        rw [List.lookup_isSome_iff]
        exact ⟨e, he, by rw [hk, beq_iff_eq.mp hkey, beq_self_eq_true]⟩
      obtain ⟨v, hv⟩ := Option.isSome_iff_exists.mp hsome
      rw [if_pos hk, if_pos hk, hv]
      rfl
    · rw [if_neg hk, if_neg hk]
  · rename_i hany
    rw [List.lookup_append, List.lookup_cons, List.lookup_nil]
    by_cases hk : k = key
    · have hnone : o.lookup k = none := by
        rw [List.lookup_eq_none_iff]
        intro e he
        rw [hk, bne_iff_ne]
        rintro hsame
        exact hany (List.any_eq_true.mpr ⟨e, he, beq_iff_eq.mpr hsame.symm⟩)
      rw [if_pos hk, hnone, beq_iff_eq.mpr hk]
      rfl
    · rw [if_neg hk, beq_eq_false_iff_ne.mpr hk, Option.or_none]

theorem get_without {o : JsObject} {keys : List String} {k : String} (hk : k ∉ keys) :
    (o.without keys).get k = o.get k := by
  unfold without get
  induction o with
  | nil => rfl
  | cons e o ih =>
    obtain ⟨k', v⟩ := e
    rw [List.filter_cons, List.lookup_cons]
    by_cases hk' : k' ∈ keys
    · have hne : k ≠ k' := by
        rintro rfl
        exact hk hk'
      rw [if_neg (by simpa using hk'), ih, beq_eq_false_iff_ne.mpr hne]
    · rw [if_pos (by simpa using hk'), List.lookup_cons, ih]

theorem getOr_of_get {o o' : JsObject} {k : String} (h : o.get k = o'.get k) (fallback : Json) :
    o.getOr k fallback = o'.getOr k fallback := by
  unfold getOr
  rw [h]

theorem getOr_of_some {o : JsObject} {k : String} {v : Json} (h : o.get k = some v) (hv : v ≠ .null)
    (fallback : Json) : o.getOr k fallback = v := by
  unfold getOr
  rw [h]
  cases v <;> first | rfl | exact absurd rfl hv

theorem getOr_ne_null {o : JsObject} {k : String} {fallback : Json} (h : fallback ≠ .null) :
    o.getOr k fallback ≠ .null := by
  unfold getOr
  rcases o.get k with _ | v
  · exact h
  · cases v <;> first | exact h | exact Json.noConfusion

/-- A field that is not among those of a literal. -/
theorem getOr_of_notMem {o : JsObject} {k : String} (h : k ∉ o.map Prod.fst) (fallback : Json) :
    o.getOr k fallback = fallback := by
  have hnone : o.get k = none := by
    unfold get
    rw [List.lookup_eq_none_iff]
    intro e he
    rw [bne_iff_ne]
    rintro rfl
    exact h (List.mem_map_of_mem he)
  unfold getOr
  rw [hnone]

theorem flagIs_iff {o : JsObject} {k : String} {b : Bool} :
    o.flagIs k b = true ↔ o.getOr k (.bool false) = .bool b := by
  unfold flagIs
  cases o.getOr k (.bool false) <;> simp

end JsObject

/-! ## The policies of an instance -/

/-- The value of a field that an update leaves out. Flags are off, there are no origins, and a
link is empty. -/
structure Resets where
  value : Policy → String → Json
  flags : ∀ e ∈ [(Policy.domain, "userLoginMustBeDomain"), (.domain, "validateOrgDomains"),
    (.login, "allowRegister"), (.login, "allowExternalIdp"), (.security, "enableImpersonation"),
    (.security, "enableIframeEmbedding")], value e.1 e.2 = .bool false
  origins : value .security "allowedOrigins" = .array []
  link : value .privacy "privacyLink" = .string ""

/-- The objects that the policies were last replaced by, and the number of updates. -/
structure Instance where
  current : Policy → JsObject
  updates : Nat := 0

/-- The value of a field. -/
def Instance.value (w : Instance) (R : Resets) (p : Policy) (field : String) : Json :=
  (w.current p).getOr field (R.value p field)

def Instance.put (w : Instance) (p : Policy) (o : JsObject) : Instance where
  current := Function.update w.current p o
  updates := w.updates + 1

/-- What comes along with the settings of a policy. -/
def Meta (field : String) : Prop := field = "details" ∨ field = "isDefault"

/-- The object tells the value of every setting, of which one that is reset may be left out. -/
def Shows (w : Instance) (R : Resets) (p : Policy) (o : JsObject) : Prop :=
  ∀ field, ¬ Meta field → o.getOr field (R.value p field) = w.value R p field

/-- An answer that is no refusal, with the effect of a success or without it. -/
def Told {α : Type} (E : α → Instance → Prop) (answer : Answer α) (w w' : Instance) : Prop :=
  ¬ answer.Precondition ∧ Changes E answer w w'

def policyStep (R : Resets) : {β : Type} → Op β → Instance → β → Instance → Prop
  | _, .inl (.getPolicy p), w, answer, w' =>
    Told (fun found w' => (∃ o, found = some o ∧ Shows w R p o) ∧ w' = w) answer w w'
  | _, .inl (.updatePolicy p o), w, answer, w' => Told (fun _ w' => w' = w.put p o) answer w w'
  | _, _, _, _, _ => False

/-- How Zitadel answers. -/
def keeping (R : Resets) : Handler Op Instance where
  step e w b w' := policyStep R e w b w'

/-- The updates that are sent, whatever is answered. -/
def sentUpdate : {β : Type} → Op β → Instance → β → Option (Policy × JsObject)
  | _, .inl (.updatePolicy p o), _, _ => some (p, o)
  | _, _, _, _ => none

/-! ## The four calls -/

/-- A call, and the values that it is to bring about. -/
inductive Desired where
  | domain (policy : DomainPolicy)
  | login (policy : LoginPolicy)
  | security (enableImpersonation : Bool)
  | privacy (link : Option String)
deriving DecidableEq, Repr

namespace Desired

def converge : Desired → Script Unit
  | domain policy => convergeDomainPolicy policy
  | login policy => convergeLoginPolicy policy
  | security enableImpersonation => convergeSecurityPolicy enableImpersonation
  | privacy link => convergePrivacyPolicy link

def policy : Desired → Policy
  | domain _ => .domain
  | login _ => .login
  | security _ => .security
  | privacy _ => .privacy

/-- The named fields with their desired values; none where no link is configured. -/
def named : Desired → List (String × Json)
  | domain policy => [("userLoginMustBeDomain", .bool policy.userLoginMustBeDomain),
      ("validateOrgDomains", .bool policy.validateOrgDomains)]
  | login policy => [("allowRegister", .bool policy.allowRegister),
      ("allowExternalIdp", .bool policy.allowExternalIdp)]
  | security enableImpersonation => [("enableImpersonation", .bool enableImpersonation)]
  | privacy link => ((link.filter (· ≠ "")).map fun l => ("privacyLink", .string l)).toList

/-- The object that the policy is replaced by. -/
def body (d : Desired) (o : JsObject) : JsObject :=
  match d with
  | domain policy => [("userLoginMustBeDomain", .bool policy.userLoginMustBeDomain),
      ("validateOrgDomains", .bool policy.validateOrgDomains)]
  | login policy => ((o.without ["details", "isDefault"]).set "allowRegister"
      (.bool policy.allowRegister)).set "allowExternalIdp" (.bool policy.allowExternalIdp)
  | security enableImpersonation => [
      ("enableIframeEmbedding", o.getOr "enableIframeEmbedding" (.bool false)),
      ("allowedOrigins", o.getOr "allowedOrigins" (.array [])),
      ("enableImpersonation", .bool enableImpersonation)]
  | privacy link => o.set "privacyLink" (.string (link.getD ""))

/-- The named fields have their desired values. -/
def Already (d : Desired) (R : Resets) (w : Instance) : Prop :=
  ∀ e ∈ d.named, w.value R d.policy e.1 = e.2

/-- The fields that the update of a call carries over. -/
def carried : Desired → String → Prop
  | domain _, _ => False
  | login _, _ => True
  | security _, field => field = "enableIframeEmbedding" ∨ field = "allowedOrigins"
  | privacy _, _ => True

end Desired

section Runs

variable {R : Resets} {w w' : Instance}

theorem told_ok {α : Type} {E : α → Instance → Prop} {a : α} :
    Told E (.ok a) w w' ↔ E a w' := ⟨And.right, fun h => ⟨id, h⟩⟩

/-- Read a policy, and replace it unless there is nothing to do. -/
theorem run_replace {p : Policy} (already : JsObject → Bool) (body : JsObject → JsObject)
    {k : Option JsObject → Script Unit}
    (hk : ∀ o, k (some o) =
      if already o then return else request (.updatePolicy p (body o))) :
    Run (keeping R) ((request (.getPolicy p)).bind k) w (some (.ok ())) w' ↔
      ∃ o, Shows w R p o ∧ w' = if already o then w else w.put p (body o) := by
  have hlast : ∀ o, Run (keeping R) (request (.updatePolicy p (body o))) w (some (.ok ())) w' ↔
      w' = w.put p (body o) := by
    intro o
    rw [← Prog.bind_pure_right (request _),
      run_request_ok (H := keeping R) (c := .updatePolicy p (body o)) fun _ _ h => h.1]
    constructor
    · rintro ⟨u, v, hstep, hrest⟩
      have hv : v = w.put p (body o) := hstep.2
      exact (run_pure_ok.mp hrest).2.trans hv
    · rintro rfl
      exact ⟨(), _, told_ok.mpr rfl, .pure () _⟩
  have hdone : ∀ o, Run (keeping R) (k (some o)) w (some (.ok ())) w' ↔
      w' = if already o then w else w.put p (body o) := by
    intro o
    rw [hk]
    by_cases halready : already o = true
    · rw [if_pos halready, if_pos halready]
      show Run (keeping R) (.pure ()) w (some (.ok ())) w' ↔ _
      rw [run_pure_ok]
      simp
    · rw [if_neg halready, if_neg halready]
      exact hlast o
  rw [run_request_ok (H := keeping R) (c := .getPolicy p) fun _ _ h => h.1]
  constructor
  · rintro ⟨a, v, hstep, hrest⟩
    obtain ⟨⟨o, rfl, hshows⟩, rfl⟩ := told_ok.mp hstep
    exact ⟨o, hshows, (hdone o).mp hrest⟩
  · rintro ⟨o, hshows, hw'⟩
    exact ⟨some o, w, told_ok.mpr ⟨⟨o, rfl, hshows⟩, rfl⟩, (hdone o).mpr hw'⟩

theorem flagIs_iff_of_shows {p : Policy} {o : JsObject} (h : Shows w R p o) {field : String}
    (hmeta : ¬ Meta field) (hreset : R.value p field = .bool false) {b : Bool} :
    o.flagIs field b = true ↔ w.value R p field = .bool b := by
  rw [JsObject.flagIs_iff, ← hreset, h field hmeta]

theorem exists_shows (w : Instance) (R : Resets) (p : Policy) : ∃ o, Shows w R p o :=
  ⟨w.current p, fun _ _ => rfl⟩

theorem not_meta {field : String} (h : field ≠ "details") (h' : field ≠ "isDefault") :
    ¬ Meta field := not_or.mpr ⟨h, h'⟩

/-- A call does nothing, or it reads its policy and replaces it unless the named fields have their
values. -/
theorem converge_cases (R : Resets) (d : Desired) :
    (d.named = [] ∧ d.converge = .pure ()) ∨
    ∃ (already : JsObject → Bool) (k : Option JsObject → Script Unit),
      d.converge = (request (.getPolicy d.policy)).bind k ∧
      (∀ o, k (some o) =
        if already o then return else request (.updatePolicy d.policy (d.body o))) ∧
      ∀ w o, Shows w R d.policy o → (already o = true ↔ d.Already R w) := by
  cases d with
  | domain policy =>
    refine Or.inr ⟨fun o => o.flagIs "userLoginMustBeDomain" policy.userLoginMustBeDomain &&
      o.flagIs "validateOrgDomains" policy.validateOrgDomains, _, rfl, fun _ => rfl, ?_⟩
    intro w o ho
    rw [Bool.and_eq_true,
      flagIs_iff_of_shows ho (not_meta (by decide) (by decide)) (R.flags (_, _) (by simp)),
      flagIs_iff_of_shows ho (not_meta (by decide) (by decide)) (R.flags (_, _) (by simp))]
    simp [Desired.Already, Desired.named, Desired.policy]
  | login policy =>
    refine Or.inr ⟨fun o => o.flagIs "allowRegister" policy.allowRegister &&
      o.flagIs "allowExternalIdp" policy.allowExternalIdp, _, rfl, fun _ => rfl, ?_⟩
    intro w o ho
    rw [Bool.and_eq_true,
      flagIs_iff_of_shows ho (not_meta (by decide) (by decide)) (R.flags (_, _) (by simp)),
      flagIs_iff_of_shows ho (not_meta (by decide) (by decide)) (R.flags (_, _) (by simp))]
    simp [Desired.Already, Desired.named, Desired.policy]
  | security enable =>
    refine Or.inr ⟨fun o => o.flagIs "enableImpersonation" enable, _, rfl, fun _ => rfl, ?_⟩
    intro w o ho
    rw [flagIs_iff_of_shows ho (not_meta (by decide) (by decide)) (R.flags (_, _) (by simp))]
    simp [Desired.Already, Desired.named, Desired.policy]
  | privacy link =>
    rcases hlink : link.filter (· ≠ "") with _ | l
    · refine Or.inl ⟨?_, ?_⟩
      · simp only [Desired.named, hlink]
        rfl
      · simp only [Desired.converge, convergePrivacyPolicy, hlink]
        rfl
    · obtain ⟨rfl, hne⟩ := Option.filter_eq_some_iff.mp hlink
      have hnamed : (Desired.privacy (some l)).named = [("privacyLink", .string l)] := by
        simp only [Desired.named, hlink]
        rfl
      have hprog : (Desired.privacy (some l)).converge =
          (request (.getPolicy .privacy)).bind fun found => (defined found).bind fun current =>
            if (current.get "privacyLink").bind Json.asStr = some l then return
            else request (.updatePolicy .privacy (current.set "privacyLink" (.string l))) := by
        simp only [Desired.converge, convergePrivacyPolicy, hlink]
        rfl
      refine Or.inr ⟨fun o => decide ((o.get "privacyLink").bind Json.asStr = some l), _, hprog,
        fun o => ?_, fun w o ho => ?_⟩
      · show (if (o.get "privacyLink").bind Json.asStr = some l then _ else _) = _
        simp only [decide_eq_true_eq]
        rfl
      · have hvalue : o.getOr "privacyLink" (R.value .privacy "privacyLink") =
            w.value R .privacy "privacyLink" := ho _ (not_meta (by decide) (by decide))
        rw [R.link] at hvalue
        rw [decide_eq_true_eq]
        unfold Desired.Already
        simp only [hnamed, List.mem_singleton, forall_eq]
        rw [show (Desired.privacy (some l)).policy = .privacy from rfl, ← hvalue]
        have hempty : l ≠ "" := by simpa using hne
        unfold JsObject.getOr
        rcases o.get "privacyLink" with _ | v
        · simpa using hempty.symm
        · cases v <;> simp [Json.asStr, hempty.symm]

/-- A call that ends well replaces the policy unless the named fields have their values. -/
theorem run_converge {d : Desired} :
    Run (keeping R) d.converge w (some (.ok ())) w' ↔
      (d.Already R w ∧ w' = w) ∨
      ¬ d.Already R w ∧ ∃ o, Shows w R d.policy o ∧ w' = w.put d.policy (d.body o) := by
  rcases converge_cases R d with ⟨hnamed, hprog⟩ | ⟨already, k, hprog, hk, halready⟩
  · have hd : d.Already R w := by
      intro e he
      rw [hnamed] at he
      cases he
    simp only [hd, true_and, not_true_eq_false, false_and, or_false]
    rw [hprog, run_pure_ok]
    simp
  · -- every object that the policy may be told by leads to the same branch
    rw [hprog, run_replace already d.body hk]
    by_cases hd : d.Already R w
    · simp only [hd, true_and, not_true_eq_false, false_and, or_false]
      constructor
      · rintro ⟨o, ho, rfl⟩
        rw [if_pos ((halready w o ho).mpr hd)]
      · intro hw'
        obtain ⟨o, ho⟩ := exists_shows w R d.policy
        exact ⟨o, ho, by rw [if_pos ((halready w o ho).mpr hd), hw']⟩
    · simp only [hd, false_and, not_false_eq_true, true_and, false_or]
      apply exists_congr
      intro o
      apply and_congr_right
      intro ho
      rw [if_neg (mt (halready w o ho).mp hd)]

/-- Where the named fields have their values, a call sends no update, however it ends. -/
theorem converge_sends_nothing {d : Desired} (hd : d.Already R w)
    {o : Option (Except Failure Unit)} {sent : List (Policy × JsObject)}
    (h : Run ((keeping R).logged sentUpdate) d.converge (w, []) o (w', sent)) : sent = [] := by
  have hspec : wpOk ((keeping R).logged sentUpdate) (fun y => y.2 = []) d.converge
      (fun _ _ => True) (w, []) := by
    rcases converge_cases R d with ⟨-, hprog⟩ | ⟨already, k, hprog, hk, halready⟩
    · rw [hprog]
      exact wpOk_pure rfl trivial
    · rw [hprog]
      have hread : wpOk ((keeping R).logged sentUpdate) (fun y => y.2 = [])
          (request (.getPolicy d.policy))
          (fun found _ => ∃ p, found = some p ∧ Shows w R d.policy p) (w, []) := by
        refine request_spec rfl (fun b y hs => hs.2) fun b a y hs hb => ?_
        rcases hb with rfl | ⟨hpre, -⟩
        · exact hs.1.2.1
        · exact absurd hpre hs.1.1
      refine wpOk_seq hread fun found y hy hfound => ?_
      obtain ⟨p, rfl, hshows⟩ := hfound
      rw [hk, if_pos ((halready w p hshows).mpr hd)]
      exact wpOk_pure hy trivial
  exact hspec.1 _ h.toCut

/-! ## What an update leaves -/

theorem put_value (p : Policy) (o : JsObject) (field : String) :
    (w.put p o).value R p field = o.getOr field (R.value p field) := by
  have hcurrent : (w.put p o).current p = o := Function.update_self _ _ _
  unfold Instance.value
  rw [hcurrent]

theorem body_named (d : Desired) (o : JsObject) (fallback : Json) :
    ∀ e ∈ d.named, (d.body o).getOr e.1 fallback = e.2 := by
  intro e he
  cases d with
  | domain policy =>
    simp only [Desired.named, List.mem_cons, List.not_mem_nil, or_false] at he
    rcases he with rfl | rfl <;> rfl
  | login policy =>
    simp only [Desired.named, List.mem_cons, List.not_mem_nil, or_false] at he
    rcases he with rfl | rfl
    · apply JsObject.getOr_of_some
      · simp [Desired.body, JsObject.get_set]
      · simp
    · apply JsObject.getOr_of_some
      · simp [Desired.body, JsObject.get_set]
      · simp
  | security enable =>
    simp only [Desired.named, List.mem_singleton] at he
    subst he
    rfl
  | privacy link =>
    simp only [Desired.named, Option.mem_toList, Option.map_eq_some_iff] at he
    obtain ⟨l, hl, rfl⟩ := he
    obtain ⟨rfl, -⟩ := Option.filter_eq_some_iff.mp hl
    apply JsObject.getOr_of_some
    · simp [Desired.body, JsObject.get_set]
    · simp

theorem body_carried {d : Desired} {o : JsObject} (ho : Shows w R d.policy o) {field : String}
    (hmeta : ¬ Meta field) (hd : d.named ≠ []) (hnamed : field ∉ d.named.map Prod.fst)
    (hcarried : d.carried field) :
    (d.body o).getOr field (R.value d.policy field) = w.value R d.policy field := by
  cases d with
  | domain policy => exact hcarried.elim
  | login policy =>
    simp only [Desired.named, List.map_cons, List.map_nil, List.mem_cons, List.not_mem_nil,
      or_false, not_or] at hnamed
    rw [← ho field hmeta]
    apply JsObject.getOr_of_get
    have hkeys : field ∉ ["details", "isDefault"] := by simpa [Meta] using hmeta
    simp only [Desired.body, JsObject.get_set, if_neg hnamed.1, if_neg hnamed.2,
      JsObject.get_without hkeys]
  | security enable =>
    rw [← ho field hmeta]
    rcases hcarried with rfl | rfl
    · have hreset : R.value .security "enableIframeEmbedding" = .bool false :=
        R.flags (_, _) (by simp)
      apply JsObject.getOr_of_some
      · show some (o.getOr "enableIframeEmbedding" (.bool false)) = _
        rw [Desired.policy, hreset]
      · exact JsObject.getOr_ne_null (hreset ▸ Json.noConfusion)
    · apply JsObject.getOr_of_some
      · show some (o.getOr "allowedOrigins" (.array [])) = _
        rw [Desired.policy, R.origins]
      · exact JsObject.getOr_ne_null (R.origins ▸ Json.noConfusion)
  | privacy link =>
    rw [← ho field hmeta]
    apply JsObject.getOr_of_get
    have hfield : field ≠ "privacyLink" := by
      rintro rfl
      apply hnamed
      obtain ⟨e, he⟩ := List.exists_mem_of_ne_nil _ hd
      simp only [Desired.named, Option.mem_toList, Option.map_eq_some_iff] at he
      obtain ⟨l, hl, rfl⟩ := he
      have hone : (Desired.privacy link).named = [("privacyLink", .string l)] := by
        simp only [Desired.named, hl]
        rfl
      rw [hone]
      exact List.mem_singleton.mpr rfl
    simp only [Desired.body, JsObject.get_set, if_neg hfield]

theorem body_dropped {d : Desired} {o : JsObject} {field : String}
    (hnamed : field ∉ d.named.map Prod.fst) (hcarried : ¬ d.carried field) (fallback : Json) :
    (d.body o).getOr field fallback = fallback := by
  cases d with
  | domain policy => exact JsObject.getOr_of_notMem hnamed fallback
  | login policy => exact absurd trivial hcarried
  | security enable =>
    apply JsObject.getOr_of_notMem
    have hnot : field ≠ "enableIframeEmbedding" ∧ field ≠ "allowedOrigins" := not_or.mp hcarried
    simpa [Desired.body, Desired.named, hnot] using hnamed
  | privacy link => exact absurd trivial hcarried

end Runs

/-! ## When the other fields are kept -/

/-- What a call that ends well leaves: the named fields have their desired values, every other
setting has the value that it had, and a second call sends no update, however it ends. -/
structure CarriedOut (d : Desired) (R : Resets) (w w' : Instance) : Prop where
  named : d.Already R w'
  others : ∀ field, ¬ Meta field → field ∉ d.named.map Prod.fst →
    w'.value R d.policy field = w.value R d.policy field
  policies : ∀ p, p ≠ d.policy → w'.current p = w.current p
  again : ∀ o w'' sent, Run ((keeping R).logged sentUpdate) d.converge (w', []) o (w'', sent) →
    sent = []

/-- A call can end well, and keeps the settings that it does not name. -/
def KeepsFields (R : Resets) (d : Desired) (w : Instance) : Prop :=
  (∃ w', Run (keeping R) d.converge w (some (.ok ())) w') ∧
    ∀ w', Run (keeping R) d.converge w (some (.ok ())) w' → CarriedOut d R w w'

/-- A call keeps the settings that it does not name if and only if the named ones have their
values already, or every setting that it does not carry over has the value that an omitted field
is reset to. The login and the privacy policy are carried over whole. -/
theorem keeps_fields_iff (R : Resets) (d : Desired) (w : Instance) :
    KeepsFields R d w ↔ d.Already R w ∨ ∀ field, ¬ Meta field → field ∉ d.named.map Prod.fst →
      ¬ d.carried field → w.value R d.policy field = R.value d.policy field := by
  have hagain : ∀ {w'}, d.Already R w' → ∀ o w'' sent,
      Run ((keeping R).logged sentUpdate) d.converge (w', []) o (w'', sent) → sent = [] :=
    fun halready _ _ _ => converge_sends_nothing halready
  by_cases halready : d.Already R w
  · simp only [halready, true_or, iff_true]
    refine ⟨⟨w, run_converge.mpr (Or.inl ⟨halready, rfl⟩)⟩, ?_⟩
    intro w' hrun
    rcases run_converge.mp hrun with ⟨-, rfl⟩ | ⟨hnot, -⟩
    · exact ⟨halready, fun _ _ _ => rfl, fun _ _ => rfl, hagain halready⟩
    · exact absurd halready hnot
  · simp only [halready, false_or]
    constructor
    · rintro ⟨-, h⟩ field hmeta hnamed hcarried
      obtain ⟨o, ho⟩ := exists_shows w R d.policy
      have hothers := (h _ (run_converge.mpr (Or.inr ⟨halready, o, ho, rfl⟩))).others field hmeta
        hnamed
      rw [put_value, body_dropped hnamed hcarried] at hothers
      exact hothers.symm
    · intro h
      obtain ⟨o, ho⟩ := exists_shows w R d.policy
      refine ⟨⟨_, run_converge.mpr (Or.inr ⟨halready, o, ho, rfl⟩)⟩, ?_⟩
      intro w' hrun
      rcases run_converge.mp hrun with ⟨hd, -⟩ | ⟨-, o, ho, rfl⟩
      · exact absurd hd halready
      · have hnamed : d.Already R (w.put d.policy (d.body o)) := by
          intro e he
          rw [put_value]
          exact body_named d o _ e he
        have hd : d.named ≠ [] := by
          intro hnil
          exact halready fun e he => by simp [hnil] at he
        refine ⟨hnamed, ?_, ?_, hagain hnamed⟩
        · intro field hmeta hfield
          rw [put_value]
          by_cases hcarried : d.carried field
          · exact body_carried ho hmeta hd hfield hcarried
          · rw [body_dropped hfield hcarried]
            exact (h field hmeta hfield hcarried).symm
        · exact fun p hp => Function.update_of_ne hp _ _

/-- The values of omitted fields: every field is a flag but for two. -/
def plainResets : Resets where
  value p field :=
    match p, field with
    | .security, "allowedOrigins" => .array []
    | .privacy, "privacyLink" => .string ""
    | _, _ => .bool false
  flags := by simp
  origins := rfl
  link := rfl

/-- An instance that asks for senders of its own domain. -/
def strictSenders : Instance where
  current := Function.update (fun _ => []) .domain
    [("smtpSenderAddressMatchesInstanceDomain", .bool true)]

/-- An update of the domain policy clears a setting that it does not name. -/
theorem setting_cleared : ¬ ∀ R d w, KeepsFields R d w := by
  intro h
  have hnot : ¬ (Desired.domain ⟨true, true⟩).Already plainResets strictSenders := by
    intro halready
    have hflag := halready ("userLoginMustBeDomain", .bool true) (by simp [Desired.named])
    have hvalue : strictSenders.value plainResets .domain "userLoginMustBeDomain" = .bool false :=
      rfl
    exact absurd (hvalue.symm.trans hflag) (by simp)
  have hothers := ((h plainResets (.domain ⟨true, true⟩) strictSenders).2 _ (run_converge.mpr
    (Or.inr ⟨hnot, _, fun _ _ => rfl, rfl⟩))).others "smtpSenderAddressMatchesInstanceDomain"
    (not_meta (by decide) (by decide)) (by simp [Desired.named])
  have hcleared : ((Desired.domain ⟨true, true⟩).body (strictSenders.current .domain)).getOr
      "smtpSenderAddressMatchesInstanceDomain" (.bool false) = .bool false := rfl
  have hkept : strictSenders.value plainResets .domain
      "smtpSenderAddressMatchesInstanceDomain" = .bool true := rfl
  rw [put_value] at hothers
  exact absurd ((hcleared.symm.trans hothers).trans hkept) (by simp)

end Foundrix.ZitadelConfigure
