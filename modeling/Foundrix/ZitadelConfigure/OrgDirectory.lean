import Foundrix.Machine.Trace
import Foundrix.ZitadelConfigure.Answers
import Foundrix.ZitadelConfigure.Orgs

/-!
# Organisations of the instance

The part of Zitadel that `convergeOrgs` reads and changes: organisations with their names and
domains. A call that changes something may have had its effect without a success.

* `ServerOrg`, `Directory`: what Zitadel keeps; `Sound` is what it guarantees.
* `directory`: the answers and their effects.
* `Misread`, `listed`: answers that the client takes for successes, and the runs without them,
  with a log of the domains that organisations were to be created for.
* `Grown`: what every run keeps.
-/

namespace Foundrix.ZitadelConfigure

open Text Effect

structure ServerOrg where
  id : String
  name : String
  domains : List String
  primaryDomain : Option String := none
deriving DecidableEq, Repr

/-- What a search shows of an organisation. -/
def ServerOrg.shown (o : ServerOrg) : Org := ⟨o.id, o.name, o.primaryDomain⟩

def ServerOrg.addDomain (o : ServerOrg) (domain : String) : ServerOrg :=
  { o with domains := o.domains ++ [domain] }

/-- Only a domain of the organisation becomes its primary one. -/
def ServerOrg.setPrimary (o : ServerOrg) (domain : String) : ServerOrg :=
  if domain ∈ o.domains then { o with primaryDomain := some domain } else o

structure Directory where
  /-- The id of the organisation of the token. -/
  own : String
  orgs : List ServerOrg
deriving DecidableEq, Repr

namespace Directory

/-- The organisation that a call is about: that of the header, which is not sent where the id
is missing or empty. -/
def target (w : Directory) (orgId : Option String) : String :=
  (orgId.filter (· ≠ "")).getD w.own

theorem target_some (w : Directory) {id : String} (h : id ≠ "") : w.target (some id) = id := by
  rw [target, Option.filter_some, if_pos (by simpa using h), Option.getD_some]

def update (w : Directory) (id : String) (f : ServerOrg → ServerOrg) : Directory :=
  { w with orgs := w.orgs.map fun o => if o.id = id then f o else o }

def add (w : Directory) (o : ServerOrg) : Directory := { w with orgs := w.orgs ++ [o] }

/-- The organisation with an id carries a domain. -/
def Carries (w : Directory) (id domain : String) : Prop :=
  ∃ o ∈ w.orgs, o.id = id ∧ domain ∈ o.domains

/-- What Zitadel guarantees. -/
structure Sound (w : Directory) : Prop where
  ids : ∀ o ∈ w.orgs, o.id ≠ ""
  unique : ∀ o ∈ w.orgs, ∀ o' ∈ w.orgs, o.id = o'.id → o = o'
  primary : ∀ o ∈ w.orgs, ∀ d, o.primaryDomain = some d → d ∈ o.domains

end Directory

/-! ## Answers -/

/-- A new organisation, with the domains that Zitadel gives it. -/
structure Founded (w : Directory) (name : String) (o : ServerOrg) (w' : Directory) : Prop where
  name : o.name = name
  id : o.id ≠ ""
  fresh : ∀ o' ∈ w.orgs, o'.id ≠ o.id
  primary : ∀ d, o.primaryDomain = some d → d ∈ o.domains
  result : w' = w.add o

def directoryStep : {β : Type} → Op β → Directory → β → Directory → Prop
  | _, .inl .listOrgs, w, answer, w' =>
    Reads (fun found => ∀ o, o ∈ found ↔ ∃ s ∈ w.orgs, o = s.shown) answer w w'
  | _, .inl (.listOrgDomains orgId), w, answer, w' =>
    Reads (fun found => ∀ s ∈ w.orgs, s.id = w.target orgId →
      ∀ d, d ∈ found.map OrgDomain.domainName ↔ d ∈ s.domains) answer w w'
  | _, .inl (.createOrg name), w, answer, w' =>
    Changes (fun id w' => ∃ o, id = some o.id ∧ Founded w name o w') answer w w'
  | _, .inl (.addOrgDomain domain orgId), w, answer, w' =>
    Changes (fun _ w' => w' = w.update (w.target orgId) fun o => o.addDomain domain) answer w w'
  | _, .inl (.setPrimaryOrgDomain domain orgId), w, answer, w' =>
    Changes (fun _ w' => w' = w.update (w.target orgId) fun o => o.setPrimary domain) answer w w'
  | _, _, w, _, w' => w' = w

/-- How Zitadel answers. -/
def directory : Handler Op Directory where
  step e w b w' := directoryStep e w b w'

/-- The domain that an organisation was to be created for. -/
def foundedFor : {β : Type} → Op β → Directory → β → Option String
  | _, .inl (.createOrg name), _, _ => some name
  | _, _, _, _ => none

/-- A refusal is taken for an answer about organisations, or for a domain that is there. -/
def Misread : {β : Type} → Op β → β → Prop
  | _, .inl .listOrgs, answer => answer.Precondition
  | _, .inl (.listOrgDomains _), answer => answer.Precondition
  | _, .inl (.createOrg _), answer => answer.Precondition
  | _, .inl (.addOrgDomain _ _), answer => answer.Precondition
  | _, _, _ => False

/-- The runs in which nothing is misread, with a log of the domains that organisations were to
be created for. -/
def listed : Handler Op (Directory × List String) :=
  (directory.restrict fun e b => ¬ Misread e b).logged foundedFor

/-! ## What every run keeps -/

/-- No organisation carries the domain or is named after it. -/
def Directory.Unclaimed (w : Directory) (domain : String) : Prop :=
  ∀ o ∈ w.orgs, o.name ≠ domain ∧ domain ∉ o.domains

/-- What a part of a run that started in `w` keeps: the organisations of `w` are as they were,
none loses a domain, and new ones are for unclaimed domains only. -/
structure Grown (w : Directory) (x y : Directory × List String) : Prop where
  sound : y.1.Sound
  old : ∀ o ∈ w.orgs, o ∈ y.1.orgs
  carries : ∀ id d, x.1.Carries id d → y.1.Carries id d
  created : ∀ d ∈ y.2, d ∈ x.2 ∨ w.Unclaimed d

section Growth

variable {w : Directory} {x y z : Directory × List String}

theorem Grown.trans (h : Grown w x y) (h' : Grown w y z) : Grown w x z := by
  refine ⟨h'.sound, h'.old, fun id d hd => h'.carries id d (h.carries id d hd), ?_⟩
  intro d hd
  rcases h'.created d hd with hd | hd
  · exact h.created d hd
  · exact Or.inr hd

/-- The state in the middle of a run is a start for what follows. -/
theorem Grown.start (h : Grown w x y) : Grown w y y :=
  ⟨h.sound, h.old, fun _ _ h => h, fun _ hd => Or.inl hd⟩

/-- An answer without an effect. -/
theorem Grown.same (hx : Grown w x x) (hworld : y.1 = x.1)
    (hlog : ∀ d ∈ y.2, d ∈ x.2 ∨ w.Unclaimed d) : Grown w x y := by
  refine ⟨hworld ▸ hx.sound, fun o ho => hworld ▸ hx.old o ho, fun id d hd => ?_, hlog⟩
  rw [hworld]
  exact hd

/-- A new organisation. -/
theorem Grown.founded (hx : Grown w x x) {name : String} {o : ServerOrg}
    (hfounded : Founded x.1 name o y.1) (hlog : ∀ d ∈ y.2, d ∈ x.2 ∨ w.Unclaimed d) :
    Grown w x y := by
  obtain ⟨-, hid, hfresh, hprimary, hresult⟩ := hfounded
  have hmem : ∀ {o'}, o' ∈ y.1.orgs ↔ o' ∈ x.1.orgs ∨ o' = o := by
    intro o'
    rw [hresult, Directory.add, List.mem_append, List.mem_singleton]
  refine ⟨⟨?_, ?_, ?_⟩, fun o' ho' => hmem.mpr (Or.inl (hx.old o' ho')), ?_, hlog⟩
  · intro o' ho'
    rcases hmem.mp ho' with ho' | rfl
    · exact hx.sound.ids o' ho'
    · exact hid
  · intro o₁ h₁ o₂ h₂ hsame
    rcases hmem.mp h₁ with h₁ | rfl <;> rcases hmem.mp h₂ with h₂ | rfl
    · exact hx.sound.unique o₁ h₁ o₂ h₂ hsame
    · exact absurd hsame (hfresh o₁ h₁)
    · exact absurd hsame.symm (hfresh o₂ h₂)
    · rfl
  · intro o' ho'
    rcases hmem.mp ho' with ho' | rfl
    · exact hx.sound.primary o' ho'
    · exact hprimary
  · rintro id d ⟨o', ho', hcarried⟩
    exact ⟨o', hmem.mpr (Or.inl ho'), hcarried⟩

/-- A change of an organisation that was not there at the start: it keeps its id, and loses no
domain. -/
theorem Grown.update (hx : Grown w x x) {id : String} {f : ServerOrg → ServerOrg}
    (hfresh : ∀ o ∈ w.orgs, o.id ≠ id) (hid : ∀ o, (f o).id = o.id)
    (hdomains : ∀ o, o.domains ⊆ (f o).domains)
    (hprimary : ∀ o : ServerOrg, (∀ d, o.primaryDomain = some d → d ∈ o.domains) →
      ∀ d, (f o).primaryDomain = some d → d ∈ (f o).domains)
    (hworld : y.1 = x.1.update id f) (hlog : y.2 = x.2) : Grown w x y := by
  have hmem : ∀ {o'}, o' ∈ y.1.orgs ↔ ∃ o ∈ x.1.orgs, (if o.id = id then f o else o) = o' := by
    intro o'
    rw [hworld, Directory.update, List.mem_map]
  have hkeeps : ∀ o : ServerOrg, (if o.id = id then f o else o).id = o.id := by
    intro o
    split
    · exact hid o
    · rfl
  refine ⟨⟨?_, ?_, ?_⟩, ?_, ?_, fun d hd => Or.inl (hlog ▸ hd)⟩
  · intro o' ho'
    obtain ⟨o, ho, rfl⟩ := hmem.mp ho'
    rw [hkeeps]
    exact hx.sound.ids o ho
  · intro o₁ h₁ o₂ h₂ hsame
    obtain ⟨o, ho, rfl⟩ := hmem.mp h₁
    obtain ⟨o', ho', rfl⟩ := hmem.mp h₂
    rw [hkeeps, hkeeps] at hsame
    rw [hx.sound.unique o ho o' ho' hsame]
  · intro o' ho'
    obtain ⟨o, ho, rfl⟩ := hmem.mp ho'
    split
    · exact hprimary o (hx.sound.primary o ho)
    · exact hx.sound.primary o ho
  · intro o ho
    exact hmem.mpr ⟨o, hx.old o ho, if_neg (hfresh o ho)⟩
  · rintro i d ⟨o, ho, hi, hd⟩
    refine ⟨_, hmem.mpr ⟨o, ho, rfl⟩, (hkeeps o).trans hi, ?_⟩
    split
    · exact hdomains o hd
    · exact hd

end Growth

/-! ## Calls -/

section Calls

variable {w : Directory} {x y : Directory × List String}

theorem listed_api {β : Type} {c : Api β} {b : β} :
    listed.step (.inl c) x b y ↔ (directoryStep (.inl c) x.1 b y.1 ∧ ¬ Misread (.inl c) b) ∧
      y.2 = x.2 ++ (foundedFor (.inl c) x.1 b).toList := Iff.rfl

theorem listOrgs_spec (hx : Grown w x x) :
    wpOk listed (Grown w x) (request .listOrgs) (fun found y => y = x ∧
      ∀ o, o ∈ found ↔ ∃ s ∈ x.1.orgs, o = s.shown) x := by
  have hsame : ∀ b y, listed.step (.inl .listOrgs) x b y → y = x := by
    intro b y hs
    obtain ⟨⟨⟨hworld, -⟩, -⟩, hlog⟩ := listed_api.mp hs
    exact Prod.ext hworld (by simpa [foundedFor] using hlog)
  refine request_spec hx (fun b y hs => hsame b y hs ▸ hx) fun b a y hs hb => ?_
  refine ⟨hsame b y hs, ?_⟩
  rcases hb with rfl | ⟨hpre, -⟩
  · exact (listed_api.mp hs).1.1.2 a rfl
  · exact absurd hpre (listed_api.mp hs).1.2

theorem listOrgDomains_spec (hx : Grown w x x) {o : ServerOrg} (ho : o ∈ x.1.orgs) :
    wpOk listed (Grown w x) (request (.listOrgDomains (some o.id))) (fun found y => y = x ∧
      ∀ d, d ∈ found.map OrgDomain.domainName ↔ d ∈ o.domains) x := by
  have htarget := x.1.target_some (hx.sound.ids o ho)
  have hsame : ∀ b y, listed.step (.inl (.listOrgDomains (some o.id))) x b y → y = x := by
    intro b y hs
    obtain ⟨⟨⟨hworld, -⟩, -⟩, hlog⟩ := listed_api.mp hs
    exact Prod.ext hworld (by simpa [foundedFor] using hlog)
  refine request_spec hx (fun b y hs => hsame b y hs ▸ hx) fun b a y hs hb => ?_
  refine ⟨hsame b y hs, ?_⟩
  rcases hb with rfl | ⟨hpre, -⟩
  · exact (listed_api.mp hs).1.1.2 a rfl o ho htarget.symm
  · exact absurd hpre (listed_api.mp hs).1.2

/-- An organisation for an unclaimed domain. -/
theorem createOrg_spec (hx : Grown w x x) {domain : String} (hdomain : w.Unclaimed domain) :
    wpOk listed (Grown w x) (request (.createOrg domain)) (fun r y => ∃ id, r = some id ∧
      id ≠ "" ∧ (∀ o ∈ w.orgs, o.id ≠ id) ∧ ∃ o ∈ y.1.orgs, o.id = id) x := by
  refine request_spec hx (fun b y hs => ?_) fun b r y hs hb => ?_
  · obtain ⟨⟨hstep, -⟩, hlog⟩ := listed_api.mp hs
    have hcreated : ∀ d ∈ y.2, d ∈ x.2 ∨ w.Unclaimed d := by
      rw [hlog]
      intro d hd
      rcases List.mem_append.mp hd with hd | hd
      · exact Or.inl hd
      · obtain rfl : d = domain := by simpa [foundedFor] using hd
        exact Or.inr hdomain
    have hstep : Changes (fun id w' => ∃ o, id = some o.id ∧ Founded x.1 domain o w') b x.1 y.1 :=
      hstep
    rcases hstep.cases with hworld | ⟨-, o, -, hfounded⟩
    · exact hx.same hworld hcreated
    · exact hx.founded hfounded hcreated
  · rcases hb with rfl | ⟨hpre, -⟩
    · obtain ⟨o, rfl, -, hid, hfresh, -, hresult⟩ := (listed_api.mp hs).1.1
      refine ⟨o.id, rfl, hid, fun o' ho' => hfresh o' (hx.old o' ho'), o, ?_, rfl⟩
      rw [hresult]
      exact List.mem_append_right _ (List.mem_singleton_self o)
    · exact absurd hpre (listed_api.mp hs).1.2

/-- A domain for an organisation that was not there at the start. -/
theorem addOrgDomain_spec (hx : Grown w x x) {id : String} (hid : id ≠ "")
    (hfresh : ∀ o ∈ w.orgs, o.id ≠ id) (hthere : ∃ o ∈ x.1.orgs, o.id = id) (domain : String) :
    wpOk listed (Grown w x) (request (.addOrgDomain domain (some id)))
      (fun _ y => y.1.Carries id domain) x := by
  refine request_spec hx (fun b y hs => ?_) fun b r y hs hb => ?_
  · obtain ⟨⟨hstep, -⟩, hlog⟩ := listed_api.mp hs
    have hlog : y.2 = x.2 := by simpa [foundedFor] using hlog
    have hstep : Changes (fun _ w' =>
      w' = x.1.update (x.1.target (some id)) fun o => o.addDomain domain) b x.1 y.1 := hstep
    rw [x.1.target_some hid] at hstep
    rcases hstep.cases with hworld | ⟨-, hworld⟩
    · exact hx.same hworld fun d hd => Or.inl (hlog ▸ hd)
    · refine hx.update (f := fun o => o.addDomain domain) hfresh (fun _ => rfl) ?_ ?_ hworld hlog
      · exact fun o => List.subset_append_left _ _
      · exact fun o hprimary d hd => List.mem_append_left _ (hprimary d hd)
  · rcases hb with rfl | ⟨hpre, -⟩
    · have hworld : y.1 = x.1.update (x.1.target (some id)) fun o => o.addDomain domain :=
        (listed_api.mp hs).1.1
      obtain ⟨o, ho, rfl⟩ := hthere
      rw [x.1.target_some hid] at hworld
      refine ⟨o.addDomain domain, ?_, rfl, List.mem_append_right _ (List.mem_singleton_self _)⟩
      rw [hworld]
      exact List.mem_map.mpr ⟨o, ho, if_pos rfl⟩
    · exact absurd hpre (listed_api.mp hs).1.2

theorem setPrimaryOrgDomain_spec (hx : Grown w x x) {id : String} (hid : id ≠ "")
    (hfresh : ∀ o ∈ w.orgs, o.id ≠ id) (domain : String) :
    wpOk listed (Grown w x) (request (.setPrimaryOrgDomain domain (some id)))
      (fun _ _ => True) x := by
  refine request_spec hx (fun b y hs => ?_) fun _ _ _ _ _ => trivial
  obtain ⟨⟨hstep, -⟩, hlog⟩ := listed_api.mp hs
  have hlog : y.2 = x.2 := by simpa [foundedFor] using hlog
  have hstep : Changes (fun _ w' =>
    w' = x.1.update (x.1.target (some id)) fun o => o.setPrimary domain) b x.1 y.1 := hstep
  rw [x.1.target_some hid] at hstep
  rcases hstep.cases with hworld | ⟨-, hworld⟩
  · exact hx.same hworld fun d hd => Or.inl (hlog ▸ hd)
  · refine hx.update hfresh (fun o => ?_) (fun o d hd => ?_) (fun o hprimary d hd => ?_) hworld hlog
    · unfold ServerOrg.setPrimary
      split <;> rfl
    · unfold ServerOrg.setPrimary
      split <;> exact hd
    · unfold ServerOrg.setPrimary at hd ⊢
      split
      · rename_i hmem
        rw [if_pos hmem] at hd
        exact Option.some.inj hd ▸ hmem
      · rename_i hmem
        rw [if_neg hmem] at hd
        exact hprimary d hd

end Calls

end Foundrix.ZitadelConfigure
