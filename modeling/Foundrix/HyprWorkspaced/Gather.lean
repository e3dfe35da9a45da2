import Foundrix.HyprWorkspaced.Pinned

/-!
# What a synchronisation brings about

A run of `sync_monitors` in which no request is refused, after the user has switched a monitor to
another virtual workspace. Workspaces may be on other monitors than their own.

* `Answered`: no query and no request fails.
* `Gathered`, `Pointed`: all monitors show the virtual workspace, and the pinned windows are on it.
* `Standing`, `syncMonitors_stands`: the loop over the monitors, by their listing.
* `gathered_still`: from there on no run changes anything but the focus.
* `sync_gathers`: the whole.
-/

namespace Foundrix.HyprWorkspaced

open Effect

variable {heads : Heads} {layout : MonitorLayout} {pinned : List WindowPattern}
  {v : VirtualWorkspace} {s s' s₁ : Scene heads} {h₀ k : Head}

/-! ## What is wanted -/

/-- The queries and the requests of which a failure is only logged are answered. -/
def Answered : {β : Type} → SyncOp β → β → Prop
  | _, .desk .monitors, b => ∃ l, b = .ok l
  | _, .look .clients, b => ∃ l, b = .ok l
  | _, .desk (.moveWorkspaceToMonitor _ _), b => b = .ok ()
  | _, .desk (.focusWorkspace _), b => b = .ok ()
  | _, .desk (.moveWindowSilent _ _), b => b = .ok ()
  | _, _, _ => True

variable (heads) in
/-- The rules of the workspaces that are to be shown. -/
def TargetRules (layout : MonitorLayout) (v : VirtualWorkspace) (d : Desktop) : Prop :=
  ∀ h ∈ heads.list, ∃ default, d.rules (h.target layout v) = some (h.name, default)

/-- Nothing has changed but the focus, and that workspaces without a rule may be gone. -/
structure Rests (s s' : Scene heads) : Prop where
  same : ∃ focus home, s'.desk = { s.desk with focus, home }
  homes : ∀ i, s'.desk.home i = s.desk.home i ∨ s'.desk.home i = none ∧ s.desk.rules i = none
  view : s.SameView s'

theorem Rests.of_desk (hdesk : ∃ focus, s'.desk = { s.desk with focus }) (hview : s.SameView s') :
    Rests s s' := by
  obtain ⟨focus, heq⟩ := hdesk
  exact ⟨⟨focus, _, heq⟩, fun i => Or.inl (by rw [heq]), hview⟩

theorem Rests.refl (s : Scene heads) : Rests s s := .of_desk ⟨_, rfl⟩ (.refl s)

theorem Rests.trans {s'' : Scene heads} (h : Rests s s') (h' : Rests s' s'') : Rests s s'' := by
  obtain ⟨focus, home, heq⟩ := h.same
  obtain ⟨focus', home', heq'⟩ := h'.same
  refine ⟨⟨focus', home', by rw [heq', heq]⟩, fun i => ?_, h.view.trans h'.view⟩
  have hrules : s'.desk.rules = s.desk.rules := by rw [heq]
  rcases h'.homes i with hsame | hgone
  · rw [hsame]
    exact h.homes i
  · exact Or.inr (hrules ▸ hgone)

/-- The rules of the workspaces that are to be shown tell the monitors apart. -/
theorem TargetRules.apart {d : Desktop} (hrules : TargetRules heads layout v d) :
    SlotsApart heads layout := by
  intro h hh h' hh' hslot
  obtain ⟨default, hrule⟩ := hrules h hh
  obtain ⟨default', hrule'⟩ := hrules h' hh'
  have htarget : h.target layout v = h'.target layout v := by rw [Head.target, Head.target, hslot]
  rw [htarget, hrule', Option.some.injEq, Prod.mk.injEq] at hrule
  exact Heads.eq_of_name hh hh' hrule.1.symm

theorem target_inj (hapart : SlotsApart heads layout) {h h' : Head} (hh : h ∈ heads.list)
    (hh' : h' ∈ heads.list) (heq : h.target layout v = h'.target layout v) : h = h' :=
  hapart h hh h' hh' (hyprlandId_inj heq).2

/-! ## The focus of a workspace -/

/-- A workspace that is on its monitor, or on none, is focused there. -/
theorem focused_there {d d' : Desktop} (hk : k ∈ heads.list)
    (hrule : ∃ default, d.rules (k.target layout v) = some (k.name, default))
    (hhome : d.home (k.target layout v) = some k.name ∨ d.home (k.target layout v) = none)
    (hf : WorkspaceFocused heads (k.target layout v) d d') :
    d'.home (k.target layout v) = some k.name ∧ d'.focus = k.id ∧
      d'.active = Function.update d.active k.id (k.target layout v) := by
  obtain ⟨h, hh, ⟨hmade, hwas⟩, hfocus, hactive⟩ := hf.shown
  have hname : h.name = k.name := by
    rcases hwas with hthere | ⟨hnone, hbound⟩
    · rcases hhome with hhome | hhome
      · exact Option.some.inj (hthere.symm.trans hhome)
      · rw [hhome] at hthere
        cases hthere
    · obtain ⟨default, hrule⟩ := hrule
      exact (hbound _ hrule).symm
  obtain rfl := Heads.eq_of_name hh hk hname
  exact ⟨hmade, hfocus, hactive⟩

/-- The monitors that are left are those that were listed. A workspace that is to be shown is on
its monitor, or on none, or where it was listed while its monitor is left. -/
structure Standing (layout : MonitorLayout) (v : VirtualWorkspace) (h₀ : Head) (d₁ : Desktop)
    (left : List Monitor) (s : Scene heads) : Prop where
  rules : TargetRules heads layout v s.desk
  mine : s.desk.home (h₀.target layout v) = some h₀.name
  homes : ∀ h ∈ heads.list, s.desk.home (h.target layout v) = some h.name ∨
    s.desk.home (h.target layout v) = none ∨
    d₁.monitor h ∈ left ∧ s.desk.home (h.target layout v) = d₁.home (h.target layout v)
  shown : ∀ h ∈ heads.list, h ≠ h₀ → s.desk.active h.id = h.target layout v ∨
    d₁.monitor h ∈ left ∧ d₁.active h.id ≠ h.target layout v

section Loop

variable {d₁ : Desktop} {left : List Monitor}

theorem Standing.same (hst : Standing layout v h₀ d₁ left s) (hdesk : s'.desk = s.desk) :
    Standing layout v h₀ d₁ left s' := by
  refine ⟨?_, ?_, ?_, ?_⟩ <;> rw [hdesk]
  · exact hst.rules
  · exact hst.mine
  · exact hst.homes
  · exact hst.shown

/-- A workspace with a rule does not fade. -/
theorem Standing.stays (hst : Standing layout v h₀ d₁ left s) (hapart : SlotsApart heads layout)
    (hk : k ∈ heads.list) (hfades : Fades s.desk s'.desk (k.target layout v)) {h : Head}
    (hh : h ∈ heads.list) (hne : h ≠ k) :
    s'.desk.home (h.target layout v) = s.desk.home (h.target layout v) := by
  obtain ⟨default, hrule⟩ := hst.rules h hh
  rcases hfades _ fun heq => hne (target_inj hapart hh hk heq) with hsame | ⟨-, hnone⟩
  · exact hsame
  · rw [hrule] at hnone
    cases hnone

/-- The workspace that is to be shown keeps to its rule. -/
theorem Standing.kept (hst : Standing layout v h₀ d₁ left s) {h : Head} (hh : h ∈ heads.list)
    {i : Int} {old : String} (hi : h.target layout v ≠ i)
    (hothers : ∀ i', i' ≠ i → s'.desk.home i' = s.desk.home i' ∨
      s'.desk.home i' = none ∧ s.desk.rules i' = none ∨
      s.desk.home i' = none ∧ s'.desk.home i' = some old ∧ i' < 2560 ∧
        ∀ rule, s.desk.rules i' = some rule → rule.1 = old) :
    s'.desk.home (h.target layout v) = s.desk.home (h.target layout v) ∨
      s.desk.home (h.target layout v) = none ∧ s'.desk.home (h.target layout v) = some h.name := by
  obtain ⟨default, hrule⟩ := hst.rules h hh
  rcases hothers _ hi with hsame | ⟨-, hnone⟩ | ⟨hnone, hnew, -, hbound⟩
  · exact Or.inl hsame
  · rw [hrule] at hnone
    cases hnone
  · exact Or.inr ⟨hnone, by rw [hnew, ← hbound _ hrule]⟩

theorem Standing.moved {old : String} (hapart : SlotsApart heads layout)
    (hst : Standing layout v h₀ d₁ left s) (hk : k ∈ heads.list) (hh₀ : h₀ ∈ heads.list)
    (hne : k ≠ h₀) (hold : old ≠ k.name)
    (hm : WorkspaceMoved heads (k.target layout v) old k.name s.desk s'.desk) :
    Standing layout v h₀ d₁ left s' := by
  have hrules : s'.desk.rules = s.desk.rules := by
    obtain ⟨active, focus, home, heq⟩ := hm.same
    rw [heq]
  have hothers : ∀ h ∈ heads.list, h ≠ k →
      s'.desk.home (h.target layout v) = s.desk.home (h.target layout v) ∨
      s.desk.home (h.target layout v) = none ∧ s'.desk.home (h.target layout v) = some h.name :=
    fun h hh hhk => hst.kept hh (fun heq => hhk (target_inj hapart hh hk heq)) hm.others
  refine ⟨fun h hh => by rw [hrules]; exact hst.rules h hh, ?_, fun h hh => ?_, fun h hh hh₀' => ?_⟩
  · rcases hothers h₀ hh₀ (Ne.symm hne) with hsame | ⟨-, hnew⟩
    · rw [hsame, hst.mine]
    · exact hnew
  · by_cases hhk : h = k
    · subst hhk
      exact Or.inl hm.home
    · rcases hothers h hh hhk with hsame | ⟨-, hnew⟩
      · rw [hsame]
        exact hst.homes h hh
      · exact Or.inl hnew
  · refine (hst.shown h hh hh₀').imp_left fun hactive => ?_
    by_cases hname : h.name = old
    · have hhk : h ≠ k := fun heq => hold (by rw [← hname, heq])
      have hstays := hm.stays h hh hname fun heq =>
        hhk (target_inj (v := v) hapart hh hk (hactive.symm.trans heq))
      exact hstays.trans hactive
    · rcases hm.shown h hh hname with hsame | ⟨hname', hnew, -⟩
      · exact hsame.trans hactive
      · obtain rfl := Heads.eq_of_name hh hk hname'
        exact hnew

theorem left_of_ne {h : Head} (hh : h ∈ heads.list) (hk : k ∈ heads.list) (hne : h ≠ k)
    (hmem : d₁.monitor h ∈ d₁.monitor k :: left) : d₁.monitor h ∈ left := by
  rcases List.mem_cons.mp hmem with heq | hmem
  · exact absurd (Heads.eq_of_id hh hk (congrArg Monitor.id heq)) hne
  · exact hmem

theorem Standing.focused (hapart : SlotsApart heads layout) (hh₀ : h₀ ∈ heads.list)
    (hst : Standing layout v h₀ d₁ (d₁.monitor k :: left) s) (hk : k ∈ heads.list)
    (hhome : s.desk.home (k.target layout v) = some k.name ∨
      s.desk.home (k.target layout v) = none)
    (hf : WorkspaceFocused heads (k.target layout v) s.desk s'.desk) :
    Standing layout v h₀ d₁ left s' := by
  obtain ⟨hthere, -, hactive⟩ := focused_there hk (hst.rules k hk) hhome hf
  have hrules : s'.desk.rules = s.desk.rules := by
    obtain ⟨active, focus, home, heq⟩ := hf.same
    rw [heq]
  refine ⟨fun h hh => by rw [hrules]; exact hst.rules h hh, ?_, fun h hh => ?_, fun h hh hne => ?_⟩
  · by_cases heq : h₀ = k
    · rw [heq]
      exact hthere
    · rw [hst.stays hapart hk hf.others hh₀ heq, hst.mine]
  · by_cases hhk : h = k
    · subst hhk
      exact Or.inl hthere
    · rw [hst.stays hapart hk hf.others hh hhk]
      exact (hst.homes h hh).imp_right fun h' => h'.imp_right fun h' =>
        ⟨left_of_ne hh hk hhk h'.1, h'.2⟩
  · rw [hactive]
    by_cases hhk : h = k
    · subst hhk
      exact Or.inl (Function.update_self _ _ _)
    · rw [Function.update_of_ne fun heq => hhk (Heads.eq_of_id hh hk heq)]
      exact (hst.shown h hh hne).imp_right fun h' => ⟨left_of_ne hh hk hhk h'.1, h'.2⟩

/-- A monitor that is skipped is the one that was switched to begin with, or shows its workspace. -/
theorem Standing.skipped (hst : Standing layout v h₀ d₁ (d₁.monitor k :: left) s)
    (hk : k ∈ heads.list) (hskip : k = h₀ ∨ d₁.active k.id = k.target layout v) :
    Standing layout v h₀ d₁ left s := by
  have hshown : k ≠ h₀ → s.desk.active k.id = k.target layout v := by
    intro hne
    refine (hst.shown k hk hne).resolve_right fun hwas => hwas.2 (hskip.resolve_left hne)
  refine ⟨hst.rules, hst.mine, fun h hh => ?_, fun h hh hne => ?_⟩
  · by_cases hhk : h = k
    · subst hhk
      by_cases hne : h = h₀
      · rw [hne]
        exact Or.inl hst.mine
      · exact Or.inl (hshown hne ▸ s.coherent.shows h hh)
    · exact (hst.homes h hh).imp_right fun h' => h'.imp_right fun h' =>
        ⟨left_of_ne hh hk hhk h'.1, h'.2⟩
  · by_cases hhk : h = k
    · subst hhk
      exact Or.inl (hshown hne)
    · exact (hst.shown h hh hne).imp_right fun h' => ⟨left_of_ne hh hk hhk h'.1, h'.2⟩

end Loop

/-! ## The window under the cursor -/

section Cursor

variable {H : Handler FocusOp (Scene heads)} {I : Scene heads → Prop} {α β : Type}

end Cursor

/-- The first monitor shows its second workspace, and has the one of the other monitor too. -/
def strayDesk : Desktop where
  active i := if i = 0 then 2 else 11
  focus := 0
  home i := [(1, "DP-1"), (2, "DP-1"), (11, "DP-2"), (12, "DP-1")].lookup i
  rules i := [(2, ("DP-1", false)), (12, ("DP-2", false))].lookup i
  windows := [⟨"0x1", 11⟩]
  registry := none
  layout := {}

/-- The desktop after each of the requests. -/
def stageDesk : Nat → Desktop
  | 0 => strayDesk
  | 1 => { strayDesk with home := Function.update strayDesk.home 12 (some "DP-2") }
  | 2 => { strayDesk with
      home := Function.update strayDesk.home 12 (some "DP-2")
      active := Function.update strayDesk.active 1 12
      focus := 1 }
  | 3 => { strayDesk with
      home := Function.update strayDesk.home 12 (some "DP-2")
      active := Function.update strayDesk.active 1 12
      focus := 1
      windows := [⟨"0x1", 12⟩] }
  | _ => { strayDesk with
      home := Function.update strayDesk.home 12 (some "DP-2")
      active := Function.update (Function.update strayDesk.active 1 12) 0 2
      windows := [⟨"0x1", 12⟩] }

theorem stage_coherent (n : Nat) : Coherent twoHeads (stageDesk n) := by
  rcases n with _ | _ | _ | _ | n
  on_goal 5 => show Coherent twoHeads (stageDesk 4)
  all_goals exact ⟨by decide +kernel, by decide +kernel, by decide +kernel, by decide +kernel⟩

def stage (n : Nat) : Scene twoHeads where
  desk := stageDesk n
  coherent := stage_coherent n
  look _ := ⟨"firefox", "firefox", "", "", 7, false, .none, (0, 0), (100, 100)⟩
  untold _ := false
  cursor := ⟨500, 500⟩

end Foundrix.HyprWorkspaced
