import HelixSync.Client.ReplayEcho
import Mathlib.Data.List.Nodup
import Mathlib.Data.List.Pairwise

/-!
# What the echo guard drops

Each window is that of a call, and an event that is dropped uses its window up. So whatever is delivered
in whatever order, and however often the worker is stopped, no more events of a URL are dropped than
there were calls for it, each within a call of its own
(`HelixSync.Client.ReplayDevice.swallowed_within_call`).

An echo and its window belong together only as long as no other event takes the window. That needs the
windows of one URL to keep apart from each other, from the visits of the user, and from what would
remove them (`HelixSync.Client.ReplayDevice.Undisturbed`). A URL is replayed only if the browser has no
visit of it, which is why they do.
-/

namespace HelixSync

namespace Client

/-- The first that satisfies a predicate is the one that is taken out. -/
theorem eraseP_of_find? {α : Type} {p : α → Bool} {l : List α} {a : α} (h : l.find? p = some a) :
    ∃ before after, l = before ++ a :: after ∧ l.eraseP p = before ++ after ∧ p a = true := by
  obtain ⟨ha, before, after, rfl, hbefore⟩ := List.find?_eq_some_iff_append.mp h
  refine ⟨before, after, rfl, ?_, ha⟩
  rw [List.eraseP_append_right _ (fun b hb => by simpa using hbefore b hb), List.eraseP_cons_of_pos ha]

namespace ReplayDevice

variable {canonicalUrl : String → String} {s : ReplayDevice}

/-! ### Every event dropped has a call of its own -/

/-- That a window is that of a call. -/
structure IsWindowOf (canonicalUrl : String → String) (s : ReplayDevice) (key : String)
    (w : ReplayWindow) : Prop where
  exists_call : ∃ c, s.calls[w.call]? = some c ∧ canonicalUrl c.url = key ∧
    w.opens = c.startedAt - echoSlackMs ∧ (c.ended = none ∧ w.closes = none ∨
      ∃ t, c.ended = some (t, .resolved) ∧ w.closes = some (t + echoSlackMs))

/-- That an event lies within a call for its URL. -/
def WithinCall (canonicalUrl : String → String) (s : ReplayDevice) (event : VisitEvent) (n : ℕ) : Prop :=
  ∃ c, s.calls[n]? = some c ∧ canonicalUrl c.url = canonicalUrl event.url ∧
    c.startedAt - echoSlackMs ≤ event.time ∧
    ∀ t how, c.ended = some (t, how) → event.time ≤ t + echoSlackMs

/-- **The invariant** of the guard, in all runs. -/
structure Accounts (canonicalUrl : String → String) (s : ReplayDevice) : Prop where
  window : ∀ key, ∀ w ∈ s.windows key, IsWindowOf canonicalUrl s key w
  distinct : ∀ key, ((s.windows key).map ReplayWindow.call).Nodup
  unspent : ∀ key, ∀ w ∈ s.windows key, w.call ∉ s.swallowed.map Prod.snd
  once : (s.swallowed.map Prod.snd).Nodup
  within : ∀ p ∈ s.swallowed, WithinCall canonicalUrl s p.1 p.2
  past : ∀ event ∈ s.happened, event.time ≤ s.time
  all : s.happened.Perm (s.pending ++ (s.captured ++ s.swallowed.map Prod.fst))

variable {s' : ReplayDevice} {n i : ℕ} {url key : String} {event : VisitEvent} {w : ReplayWindow}
  {startedAt : ℚ} {how : CallEnd}

theorem accounts_start : Accounts canonicalUrl start where
  window := by simp [start]
  distinct := by simp [start]
  unspent := by simp [start]
  once := by simp [start]
  within := by simp [start]
  past := by simp [start]
  all := by simp [start]

theorem now_le (s : ReplayDevice) : s.now ≤ s.time := Int.floor_le s.time

theorem lt_now_add_one (s : ReplayDevice) : s.time < s.now + 1 := Int.lt_floor_add_one s.time

/-- What has happened is behind the slack of what ends now. -/
theorem Accounts.le_now_add (h : Accounts canonicalUrl s) (hevent : event ∈ s.happened) :
    event.time ≤ s.now + echoSlackMs := by
  have hpast := h.past event hevent
  have hnow := s.lt_now_add_one
  rw [echoSlackMs]
  linarith

theorem Accounts.happened_of_swallowed (h : Accounts canonicalUrl s) {p : VisitEvent × ℕ}
    (hp : p ∈ s.swallowed) : p.1 ∈ s.happened :=
  h.all.mem_iff.mpr (List.mem_append_right _ (List.mem_append_right _ (List.mem_map_of_mem hp)))

/-- That a call keeps what it was called with, and its end. -/
def Unchanged (s s' : ReplayDevice) (n : ℕ) : Prop :=
  ∀ c, s.calls[n]? = some c → ∃ c', s'.calls[n]? = some c' ∧ c'.url = c.url ∧
    c'.startedAt = c.startedAt ∧ c'.ended = c.ended

/-- That the calls keep what they were called with, and end now if they end. -/
def GoOn (s s' : ReplayDevice) : Prop :=
  ∀ (n : ℕ) (c : ReplayCall), s.calls[n]? = some c → ∃ c', s'.calls[n]? = some c' ∧ c'.url = c.url ∧
    c'.startedAt = c.startedAt ∧ (c'.ended = c.ended ∨ ∃ how, c'.ended = some (s.now, how))

theorem goOn_of_unchanged (h : ∀ n, Unchanged s s' n) : GoOn s s' := by
  intro n c hc
  obtain ⟨c', hc', hurl, hstart, hended⟩ := h n c hc
  exact ⟨c', hc', hurl, hstart, Or.inl hended⟩

theorem unchanged_of_eq (h : s'.calls = s.calls) (n : ℕ) : Unchanged s s' n :=
  fun c hc => ⟨c, h ▸ hc, rfl, rfl, rfl⟩

/-- A call that is added leaves the others as they were. -/
theorem unchanged_append {c : ReplayCall} (h : s'.calls = s.calls ++ [c]) (n : ℕ) :
    Unchanged s s' n := by
  intro old hold
  refine ⟨old, ?_, rfl, rfl, rfl⟩
  rw [h, List.getElem?_append_left (List.getElem?_eq_some_iff.mp hold).1, hold]

theorem getElem?_modify_calls {calls : List ReplayCall} {f : ReplayCall → ReplayCall} (n m : ℕ) :
    (calls.modify n f)[m]? = (calls[m]?).map fun c => if n = m then f c else c := by
  rw [List.getElem?_modify]
  rfl

theorem unchanged_perform (h : s'.calls = s.calls.modify n fun c => { c with performed := true })
    (m : ℕ) :
    Unchanged s s' m := by
  intro c hc
  rw [h, getElem?_modify_calls, hc]
  by_cases hnm : n = m
  · exact ⟨{ c with performed := true }, by simp [hnm], rfl, rfl, rfl⟩
  · exact ⟨c, by simp [hnm], rfl, rfl, rfl⟩

/-- A call that ends leaves the others as they were. -/
theorem unchanged_end (h : s'.calls = (s.endCall n how).calls) {m : ℕ} (hnm : m ≠ n) :
    Unchanged s s' m := by
  intro c hc
  rw [h, endCall, getElem?_modify_calls, hc]
  exact ⟨c, by simp [hnm.symm], rfl, rfl, rfl⟩

theorem goOn_end (h : s'.calls = (s.endCall n how).calls) : GoOn s s' := by
  intro m c hc
  by_cases hnm : m = n
  · subst hnm
    rw [h, endCall, getElem?_modify_calls, hc]
    exact ⟨{ c with ended := some (s.now, how) }, by simp, rfl, rfl, Or.inr ⟨how, rfl⟩⟩
  · obtain ⟨c', hc', hurl, hstart, hended⟩ := unchanged_end h hnm c hc
    exact ⟨c', hc', hurl, hstart, Or.inl hended⟩

theorem IsWindowOf.of_unchanged (h : IsWindowOf canonicalUrl s key w) (hcall : Unchanged s s' w.call) :
    IsWindowOf canonicalUrl s' key w := by
  obtain ⟨c, hc, hurl, hopens, hends⟩ := h.exists_call
  obtain ⟨c', hc', hurl', hstart, hended⟩ := hcall c hc
  exact ⟨c', hc', hurl' ▸ hurl, hstart ▸ hopens, hended ▸ hends⟩

/-- Two windows of one call are of one URL. -/
theorem IsWindowOf.key_eq {key' : String} {w' : ReplayWindow} (h : IsWindowOf canonicalUrl s key w)
    (h' : IsWindowOf canonicalUrl s key' w') (hcall : w.call = w'.call) : key = key' := by
  obtain ⟨c, hc, hurl, -⟩ := h.exists_call
  obtain ⟨c', hc', hurl', -⟩ := h'.exists_call
  rw [hcall, hc'] at hc
  rw [← hurl, ← hurl', Option.some.inj hc]

theorem WithinCall.goOn (h : WithinCall canonicalUrl s event n) (hgo : GoOn s s')
    (htime : event.time ≤ s.now + echoSlackMs) : WithinCall canonicalUrl s' event n := by
  obtain ⟨c, hc, hurl, hstart, hend⟩ := h
  obtain ⟨c', hc', hurl', hstart', hended⟩ := hgo n c hc
  refine ⟨c', hc', hurl' ▸ hurl, hstart' ▸ hstart, fun t how ht => ?_⟩
  rcases hended with heq | ⟨how', hnow⟩
  · exact hend t how (heq ▸ ht)
  · rw [hnow] at ht
    obtain ⟨rfl, -⟩ := Prod.mk.inj (Option.some.inj ht)
    exact htime

/-- Calls go on, and windows are only taken away or closed. -/
theorem Accounts.keep (h : Accounts canonicalUrl s) (hgo : GoOn s s')
    (hwindow : ∀ key, ∀ w ∈ s'.windows key, IsWindowOf canonicalUrl s' key w)
    (hcalls : ∀ key, ((s'.windows key).map ReplayWindow.call).Sublist ((s.windows key).map ReplayWindow.call))
    (hswallowed : s'.swallowed = s.swallowed) (hpast : ∀ event ∈ s'.happened, event.time ≤ s'.time)
    (hall : s'.happened.Perm (s'.pending ++ (s'.captured ++ s'.swallowed.map Prod.fst))) :
    Accounts canonicalUrl s' where
  window := hwindow
  distinct key := (h.distinct key).sublist (hcalls key)
  unspent key w hw hmem := by
    obtain ⟨old, hold, hcall⟩ := List.mem_map.mp ((hcalls key).subset (List.mem_map_of_mem hw))
    exact h.unspent key old hold (hcall ▸ hswallowed ▸ hmem)
  once := hswallowed ▸ h.once
  within p hp := by
    rw [hswallowed] at hp
    exact (h.within p hp).goOn hgo (h.le_now_add (h.happened_of_swallowed hp))
  past := hpast
  all := hall

/-- The events there have been, with one more that is not delivered yet. -/
theorem Accounts.all_announce (h : Accounts canonicalUrl s) (event : VisitEvent) :
    (s.happened ++ [event]).Perm
      ((s.pending ++ [event]) ++ (s.captured ++ s.swallowed.map Prod.fst)) := by
  refine List.perm_iff_count.mpr fun e => ?_
  have hcount := h.all.count_eq e
  simp only [List.count_append] at hcount ⊢
  omega

theorem Accounts.past_announce (h : Accounts canonicalUrl s) (htime : event.time = s.time) :
    ∀ e ∈ s.happened ++ [event], e.time ≤ s.time := by
  intro e he
  rcases List.mem_append.mp he with he | he
  · exact h.past e he
  · rw [List.mem_singleton.mp he, htime]

/-- A call is made. -/
theorem Accounts.addUrl (h : Accounts canonicalUrl s) (url : String) :
    Accounts canonicalUrl (s.step canonicalUrl (.addUrl url)) := by
  have hunchanged : ∀ n, Unchanged s (s.step canonicalUrl (.addUrl url)) n := unchanged_append rfl
  have hlt : ∀ {n c}, s.calls[n]? = some c → n < s.calls.length := fun hc =>
    (List.getElem?_eq_some_iff.mp hc).1
  have hnew : ∀ key, s.calls.length ∉ (s.windows key).map ReplayWindow.call := by
    intro key hmem
    obtain ⟨w, hw, hcall⟩ := List.mem_map.mp hmem
    obtain ⟨c, hc, -⟩ := (h.window key w hw).exists_call
    exact absurd (hlt hc) (by omega)
  constructor
  · intro key w hw
    simp only [ReplayDevice.step, expectEcho, Function.update_apply] at hw
    split at hw
    · rename_i hkey
      subst hkey
      rcases List.mem_append.mp hw with hw | hw
      · exact (h.window _ w hw).of_unchanged (hunchanged _)
      · rw [List.mem_singleton.mp hw]
        exact ⟨_, List.getElem?_concat_length, rfl, rfl, Or.inl ⟨rfl, rfl⟩⟩
    · exact (h.window _ w hw).of_unchanged (hunchanged _)
  · intro key
    simp only [ReplayDevice.step, expectEcho, Function.update_apply]
    split
    · rename_i hkey
      subst hkey
      rw [List.map_append, List.nodup_append]
      refine ⟨h.distinct _, List.nodup_singleton _, fun n hn m hm heq => ?_⟩
      rw [List.map_singleton, List.mem_singleton] at hm
      exact hnew _ (hm ▸ heq ▸ hn)
    · exact h.distinct _
  · intro key w hw hmem
    simp only [ReplayDevice.step, expectEcho, Function.update_apply] at hw hmem
    split at hw
    · rename_i hkey
      subst hkey
      rcases List.mem_append.mp hw with hw | hw
      · exact h.unspent _ w hw hmem
      · rw [List.mem_singleton.mp hw] at hmem
        obtain ⟨p, hp, hpn⟩ := List.mem_map.mp hmem
        obtain ⟨c, hc, -⟩ := h.within p hp
        exact absurd (hlt hc) (by rw [hpn]; exact lt_irrefl _)
    · exact h.unspent _ w hw hmem
  · exact h.once
  · intro p hp
    exact (h.within p hp).goOn (goOn_of_unchanged hunchanged) (h.le_now_add (h.happened_of_swallowed hp))
  · exact h.past
  · exact h.all

theorem Accounts.perform (h : Accounts canonicalUrl s) (n : ℕ) (url : String) :
    Accounts canonicalUrl (announce
      { s with calls := s.calls.modify n fun c => { c with performed := true } } ⟨url, s.time, some n⟩) := by
  have hunchanged : ∀ m, Unchanged s (announce
      { s with calls := s.calls.modify n fun c => { c with performed := true } }
      ⟨url, s.time, some n⟩) m := unchanged_perform rfl
  refine h.keep (goOn_of_unchanged hunchanged) (fun key w hw => ?_) (fun _ => List.Sublist.refl _) rfl
    (h.past_announce rfl) (h.all_announce _)
  exact (h.window key w hw).of_unchanged (hunchanged _)

/-- A call resolves, and its window is closed. -/
theorem Accounts.resolve (h : Accounts canonicalUrl s)
    (hcall : s.calls[n]? = some ⟨url, startedAt, true, none⟩) :
    Accounts canonicalUrl
      ((s.closeWindow canonicalUrl url n (s.now + echoSlackMs)).endCall n .resolved) := by
  have hends : ((s.closeWindow canonicalUrl url n (s.now + echoSlackMs)).endCall n .resolved).calls =
      (s.endCall n .resolved).calls := rfl
  refine h.keep (goOn_end hends) (fun key w hw => ?_) (fun key => ?_) rfl h.past h.all
  · simp only [endCall, closeWindow, Function.update_apply] at hw
    by_cases hn : w.call = n
    · -- The window of the call ends where the call does.
      have hold : ∃ old ∈ s.windows key, old.call = n ∧ (key = canonicalUrl url →
          w = { old with closes := some (s.now + echoSlackMs) }) := by
        split at hw
        · rename_i hkey
          obtain ⟨old, hold, rfl⟩ := List.mem_map.mp hw
          have holdCall : old.call = n := by
            split at hn
            · assumption
            · exact hn
          exact ⟨old, hkey ▸ hold, holdCall, fun _ => by rw [if_pos holdCall]⟩
        · rename_i hkey
          exact ⟨w, hw, hn, fun heq => absurd heq hkey⟩
      obtain ⟨old, hold, holdCall, hw'⟩ := hold
      obtain ⟨c, hc, hurl, hopens, -⟩ := (h.window key old hold).exists_call
      rw [holdCall, hcall] at hc
      obtain rfl := Option.some.inj hc
      rw [hw' hurl.symm]
      refine ⟨⟨url, startedAt, true, some (s.now, .resolved)⟩, ?_, hurl, hopens,
        Or.inr ⟨s.now, rfl, rfl⟩⟩
      rw [hends, endCall, getElem?_modify_calls, holdCall, hcall]
      simp
    · have hw' : w ∈ s.windows key := by
        split at hw
        · rename_i hkey
          obtain ⟨old, hold, rfl⟩ := List.mem_map.mp hw
          split at hn
          · rename_i heq
            exact absurd heq hn
          · rename_i hne
            rw [if_neg hne]
            exact hkey ▸ hold
        · exact hw
      exact (h.window key w hw').of_unchanged (unchanged_end hends hn)
  · simp only [endCall, closeWindow, Function.update_apply]
    split
    · rename_i hkey
      rw [List.map_map, hkey]
      refine (List.map_congr_left fun w _ => ?_) ▸ List.Sublist.refl _
      simp only [Function.comp_apply]
      split <;> rfl
    · exact List.Sublist.refl _

/-- The window of a call was the only one with its number, so that none is left once it is taken back. -/
theorem Accounts.call_ne_of_forgetEcho (h : Accounts canonicalUrl s)
    (hcall : s.calls[n]? = some ⟨url, startedAt, false, none⟩)
    (hw : w ∈ (s.forgetEcho canonicalUrl url n).windows key) : w.call ≠ n := by
  intro hn
  have hold : w ∈ s.windows key := by
    simp only [forgetEcho, Function.update_apply] at hw
    split at hw
    · rename_i hkey
      exact hkey ▸ List.mem_of_mem_eraseP hw
    · exact hw
  obtain ⟨c, hc, hurl, -⟩ := (h.window key w hold).exists_call
  rw [hn, hcall] at hc
  obtain rfl := Option.some.inj hc
  simp only at hurl
  simp only [forgetEcho, Function.update_apply, if_pos hurl.symm] at hw
  rw [hurl] at hw
  obtain ⟨a, before, after, -, ha, hsplit, herase⟩ := List.exists_of_eraseP (p := fun w => decide (w.call = n))
    (List.mem_of_mem_eraseP hw) (decide_eq_true hn)
  have hdistinct := h.distinct key
  rw [hsplit, List.map_append, List.map_cons] at hdistinct
  rw [herase] at hw
  have hmem : w.call ∈ before.map ReplayWindow.call ++ after.map ReplayWindow.call :=
    List.map_append ▸ List.mem_map_of_mem hw
  rw [hn, ← of_decide_eq_true ha] at hmem
  exact (List.nodup_cons.mp (List.nodup_middle.mp hdistinct)).1 hmem

/-- A call is rejected, and its window is taken back. -/
theorem Accounts.reject (h : Accounts canonicalUrl s)
    (hcall : s.calls[n]? = some ⟨url, startedAt, false, none⟩) :
    Accounts canonicalUrl ((s.forgetEcho canonicalUrl url n).endCall n .rejected) := by
  have hends : ((s.forgetEcho canonicalUrl url n).endCall n .rejected).calls =
      (s.endCall n .rejected).calls := rfl
  have hsublist : ∀ key, (((s.forgetEcho canonicalUrl url n).endCall n .rejected).windows key).Sublist
      (s.windows key) := by
    intro key
    simp only [endCall, forgetEcho, Function.update_apply]
    split
    · rename_i hkey
      exact hkey ▸ List.eraseP_sublist
    · exact List.Sublist.refl _
  refine h.keep (goOn_end hends) (fun key w hw => ?_) (fun key => (hsublist key).map _) rfl h.past h.all
  exact (h.window key w ((hsublist key).subset hw)).of_unchanged
    (unchanged_end hends (h.call_ne_of_forgetEcho hcall hw))

/-- An event is delivered. -/
theorem Accounts.deliver (h : Accounts canonicalUrl s) (hevent : s.pending[i]? = some event) :
    Accounts canonicalUrl (listen canonicalUrl { s with pending := s.pending.eraseIdx i } event) := by
  obtain ⟨hi, hget⟩ := List.getElem?_eq_some_iff.mp hevent
  have hperm : s.pending.Perm (event :: s.pending.eraseIdx i) := by
    rw [← hget]
    exact (List.getElem_cons_eraseIdx_perm hi).symm
  have hpast := h.past event (h.all.mem_iff.mpr (List.mem_append_left _
    (hperm.mem_iff.mpr List.mem_cons_self)))
  unfold listen
  simp only
  split
  · rename_i w hfind
    obtain ⟨before, after, hsplit, herase, hcontains⟩ := eraseP_of_find? hfind
    have hw : w ∈ s.windows (canonicalUrl event.url) := hsplit ▸ List.mem_append_right _ List.mem_cons_self
    have hsub : ∀ key, (Function.update s.windows (canonicalUrl event.url)
        ((s.windows (canonicalUrl event.url)).eraseP (·.contains event.time)) key).Sublist
          (s.windows key) := by
      intro key
      rw [Function.update_apply]
      split
      · rename_i hkey
        exact hkey ▸ List.eraseP_sublist
      · exact List.Sublist.refl _
    have hgone : ∀ key, ∀ w' ∈ Function.update s.windows (canonicalUrl event.url)
        ((s.windows (canonicalUrl event.url)).eraseP (·.contains event.time)) key, w'.call ≠ w.call := by
      intro key w' hw' heq
      obtain rfl := (h.window key w' ((hsub key).subset hw')).key_eq (h.window _ w hw) heq
      rw [Function.update_self, herase] at hw'
      have hdistinct := h.distinct (canonicalUrl event.url)
      rw [hsplit, List.map_append, List.map_cons] at hdistinct
      refine (List.nodup_cons.mp (List.nodup_middle.mp hdistinct)).1 ?_
      rw [← heq, ← List.map_append]
      exact List.mem_map_of_mem hw'
    constructor
    · exact fun key w' hw' => (h.window key w' ((hsub key).subset hw')).of_unchanged
        (unchanged_of_eq rfl _)
    · exact fun key => (h.distinct key).sublist ((hsub key).map _)
    · intro key w' hw' hmem
      rw [List.map_append, List.map_singleton, List.mem_append, List.mem_singleton] at hmem
      rcases hmem with hmem | heq
      · exact h.unspent key w' ((hsub key).subset hw') hmem
      · exact hgone key w' hw' heq
    · rw [List.map_append, List.map_singleton]
      refine List.nodup_append.mpr ⟨h.once, List.nodup_singleton _, fun n hn m hm heq => ?_⟩
      rw [List.mem_singleton.mp hm] at heq
      subst heq
      exact h.unspent _ w hw hn
    · intro p hp
      rcases List.mem_append.mp hp with hp | hp
      · exact (h.within p hp).goOn (goOn_of_unchanged fun n => unchanged_of_eq rfl n)
          (h.le_now_add (h.happened_of_swallowed hp))
      · rw [List.mem_singleton.mp hp]
        obtain ⟨c, hc, hurl, hopens, hends⟩ := (h.window _ w hw).exists_call
        simp only [ReplayWindow.contains, Bool.and_eq_true, decide_eq_true_eq] at hcontains
        refine ⟨c, hc, hurl, hopens ▸ hcontains.1, fun t how ht => ?_⟩
        rcases hends with ⟨hnone, -⟩ | ⟨t', hended, hcloses⟩
        · rw [hnone] at ht
          cases ht
        · rw [hended] at ht
          obtain ⟨rfl, -⟩ := Prod.mk.inj (Option.some.inj ht)
          simpa [hcloses] using hcontains.2
    · exact h.past
    · refine List.perm_iff_count.mpr fun e => ?_
      have hcount := h.all.count_eq e
      have hpending := hperm.count_eq e
      simp only [List.map_append, List.map_singleton, List.count_append, List.count_cons,
        List.count_nil] at hcount hpending ⊢
      omega
  · refine h.keep (goOn_of_unchanged fun n => unchanged_of_eq rfl n) (fun key w hw =>
      (h.window key w hw).of_unchanged (unchanged_of_eq rfl _)) (fun _ => List.Sublist.refl _) rfl h.past ?_
    refine List.perm_iff_count.mpr fun e => ?_
    have hcount := h.all.count_eq e
    have hpending := hperm.count_eq e
    simp only [List.count_append, List.count_cons, List.count_nil] at hcount hpending ⊢
    omega

/-- The worker is stopped: its windows are gone, and so are the ends of its calls. -/
theorem Accounts.restart (h : Accounts canonicalUrl s) :
    Accounts canonicalUrl (s.step canonicalUrl .restart) := by
  refine h.keep (fun n c hc => ?_) (fun key w hw => absurd hw List.not_mem_nil)
    (fun _ => List.nil_sublist _) rfl h.past h.all
  cases hended : c.ended with
  | none =>
    refine ⟨{ c with ended := some (s.now, .abandoned) }, ?_, rfl, rfl, Or.inr ⟨.abandoned, rfl⟩⟩
    simp [ReplayDevice.step, hc, hended]
  | some e => exact ⟨c, by simp [ReplayDevice.step, hc, hended], rfl, rfl, Or.inl hended⟩

/-- **Every event** keeps the invariant. -/
theorem Accounts.step (h : Accounts canonicalUrl s) (e : ReplayEvent) :
    Accounts canonicalUrl (s.step canonicalUrl e) := by
  have hkeep : ∀ s' : ReplayDevice, s'.calls = s.calls → ∀ key, ∀ w ∈ s.windows key,
      IsWindowOf canonicalUrl s' key w := fun s' hcalls key w hw =>
    (h.window key w hw).of_unchanged (unchanged_of_eq hcalls _)
  cases e with
  | tick time =>
    exact h.keep (goOn_of_unchanged fun n => unchanged_of_eq rfl n) (hkeep _ rfl)
      (fun _ => List.Sublist.refl _) rfl (fun e he => (h.past e he).trans (le_max_left _ _)) h.all
  | visit url =>
    exact h.keep (goOn_of_unchanged fun n => unchanged_of_eq rfl n) (hkeep _ rfl)
      (fun _ => List.Sublist.refl _) rfl (h.past_announce rfl) (h.all_announce _)
  | addUrl url => exact h.addUrl url
  | perform n url =>
    simp only [ReplayDevice.step]
    split
    · split
      · exact h.perform n url
      · exact h
    · split
      · exact h.perform n url
      · exact h
    · exact h
  | resolve n =>
    simp only [ReplayDevice.step]
    split
    · rename_i hcall
      exact h.resolve hcall
    · exact h
  | reject n =>
    simp only [ReplayDevice.step]
    split
    · rename_i hcall
      exact h.reject hcall
    · exact h
  | deliver i =>
    simp only [ReplayDevice.step]
    split
    · rename_i hevent
      exact h.deliver hevent
    · exact h
  | sweep =>
    exact h.keep (goOn_of_unchanged fun n => unchanged_of_eq rfl n)
      (fun key w hw => hkeep (s.step canonicalUrl .sweep) rfl key w (List.mem_of_mem_filter hw))
      (fun key => List.filter_sublist.map _) rfl h.past h.all
  | restart => exact h.restart

theorem accounts_run (es : List ReplayEvent) : Accounts canonicalUrl (run canonicalUrl es) :=
  Runs.invariant (I := Accounts canonicalUrl) (fun _ e h => h.step e) accounts_start es

/-- **Nothing is dropped but for a call**: in every run each event is still to come, captured or
dropped; no call accounts for two events that were dropped; and an event that was dropped is of the URL
of its call and lies between its start and its end, give or take the slack. -/
theorem swallowed_within_call (canonicalUrl : String → String) (es : List ReplayEvent) :
    let s := run canonicalUrl es
    s.happened.Perm (s.pending ++ (s.captured ++ s.swallowed.map Prod.fst)) ∧
      (s.swallowed.map Prod.snd).Nodup ∧
      ∀ p ∈ s.swallowed, ∃ c, s.calls[p.2]? = some c ∧ canonicalUrl c.url = canonicalUrl p.1.url ∧
        c.startedAt - echoSlackMs ≤ p.1.time ∧
        ∀ t how, c.ended = some (t, how) → p.1.time ≤ t + echoSlackMs :=
  have h : Accounts canonicalUrl (run canonicalUrl es) := accounts_run es
  ⟨h.all, h.once, h.within⟩

/-! ### Undisturbed runs -/

/-- **What may disturb** an echo and its window: a visit of the user within a window of the URL; a call
whose window meets an older one of the URL, or a visit of the user that is still to be delivered; a
sweep that finds a window; a restart. -/
def Undisturbed (canonicalUrl : String → String) (s : ReplayDevice) : ReplayEvent → Prop
  | .visit url => ∀ w ∈ s.windows (canonicalUrl url), w.contains s.time = false
  | .addUrl url =>
    (∀ w ∈ s.windows (canonicalUrl url), ∃ t, w.closes = some t ∧ t < s.now - echoSlackMs) ∧
      ∀ event ∈ s.pending, canonicalUrl event.url = canonicalUrl url → event.origin = none →
        event.time < s.now - echoSlackMs
  | .sweep => ∀ key, ∀ w ∈ s.windows key, s.now - w.addedAt < echoWindowRetentionMs
  | .restart => False
  | _ => True

/-- Windows that have no time in common. -/
def Apart (w w' : ReplayWindow) : Prop := ∀ time, w.contains time = true → w'.contains time = false

/-- The call of a window: it may still be performed, or its echo is to be delivered. -/
def Awaited (s : ReplayDevice) (w : ReplayWindow) : Prop :=
  (∃ c, s.calls[w.call]? = some c ∧ c.performed = false ∧ c.ended = none) ∨
    ∃ event ∈ s.pending, event.origin = some w.call

/-- **The invariant** of the guard, in undisturbed runs: echoes and windows belong together. -/
structure Paired (canonicalUrl : String → String) (s : ReplayDevice) : Prop where
  accounts : Accounts canonicalUrl s
  apart : ∀ key, (s.windows key).Pairwise Apart
  awaited : ∀ key, ∀ w ∈ s.windows key, Awaited s w
  open' : ∀ n c, s.calls[n]? = some c → c.performed = false → c.ended = none →
    ∃ w ∈ s.windows (canonicalUrl c.url), w.call = n
  echo : ∀ event ∈ s.pending, ∀ n, event.origin = some n →
    (∃ w ∈ s.windows (canonicalUrl event.url), w.call = n ∧ w.contains event.time = true) ∧
      ∃ c, s.calls[n]? = some c ∧ c.performed = true
  user : ∀ event ∈ s.pending, event.origin = none →
    ∀ w ∈ s.windows (canonicalUrl event.url), w.contains event.time = false
  distinct : (s.pending.filterMap VisitEvent.origin).Nodup
  kept : ∀ c ∈ s.calls, ∀ t, c.ended ≠ some (t, .abandoned)
  started : ∀ c ∈ s.calls, c.startedAt ≤ s.time
  captured : ∀ event ∈ s.captured, event.origin = none
  swallowed : ∀ p ∈ s.swallowed, p.1.origin = some p.2

instance : Std.Symm Apart where
  symm w w' h time hw' := by
    cases hw : w.contains time with
    | false => rfl
    | true =>
      rw [h time hw] at hw'
      cases hw'

/-- A time is in one window only. -/
theorem Paired.eq_of_contains (h : Paired canonicalUrl s) {w' : ReplayWindow} (hw : w ∈ s.windows key)
    (hw' : w' ∈ s.windows key) {time : ℚ} (htime : w.contains time = true)
    (htime' : w'.contains time = true) : w = w' := by
  by_contra hne
  rw [(h.apart key).forall hw hw' hne time htime] at htime'
  cases htime'

theorem paired_start : Paired canonicalUrl start where
  accounts := accounts_start
  apart := by simp [start]
  awaited := by simp [start]
  open' := by simp [start]
  echo := by simp [start]
  user := by simp [start]
  distinct := by simp [start]
  kept := by simp [start]
  started := by simp [start]
  captured := by simp [start]
  swallowed := by simp [start]

theorem Paired.tick (h : Paired canonicalUrl s) (time : ℚ) :
    Paired canonicalUrl (s.step canonicalUrl (.tick time)) :=
  { h with
    accounts := h.accounts.step (.tick time)
    started := fun c hc => (h.started c hc).trans (le_max_left _ _) }

theorem Awaited.announce (h : Awaited s w) (event : VisitEvent) :
    Awaited (s.announce event) w :=
  h.imp_right fun ⟨e, he, horigin⟩ => ⟨e, List.mem_append_left _ he, horigin⟩

/-- The user visits a page. -/
theorem Paired.visit (h : Paired canonicalUrl s) (hquiet : Undisturbed canonicalUrl s (.visit url)) :
    Paired canonicalUrl (s.step canonicalUrl (.visit url)) where
  accounts := h.accounts.step (.visit url)
  apart := h.apart
  awaited key w hw := (h.awaited key w hw).announce _
  open' := h.open'
  echo event hevent n horigin := by
    rcases List.mem_append.mp hevent with hevent | hevent
    · exact h.echo event hevent n horigin
    · rw [List.mem_singleton.mp hevent] at horigin
      cases horigin
  user event hevent horigin := by
    rcases List.mem_append.mp hevent with hevent | hevent
    · exact h.user event hevent horigin
    · rw [List.mem_singleton.mp hevent]
      exact hquiet
  distinct := by
    simpa [ReplayDevice.step, ReplayDevice.announce] using h.distinct
  kept := h.kept
  started := h.started
  captured := h.captured
  swallowed := h.swallowed

/-- A call is made, whose window opens after all others of the URL. -/
theorem Paired.addUrl (h : Paired canonicalUrl s) (hquiet : Undisturbed canonicalUrl s (.addUrl url)) :
    Paired canonicalUrl (s.step canonicalUrl (.addUrl url)) := by
  obtain ⟨hclosed, hdelivered⟩ := hquiet
  have hold : ∀ {n c}, s.calls[n]? = some c →
      (s.calls ++ [⟨url, s.now, false, none⟩])[n]? = some c := fun hc => by
    rw [List.getElem?_append_left (List.getElem?_eq_some_iff.mp hc).1, hc]
  have hwindows : ∀ key, ∀ w ∈ s.windows key, w ∈ (s.step canonicalUrl (.addUrl url)).windows key := by
    intro key w hw
    simp only [ReplayDevice.step, expectEcho, Function.update_apply]
    split
    · rename_i hkey
      exact List.mem_append_left _ (hkey ▸ hw)
    · exact hw
  have hsplit : ∀ key, ∀ w ∈ (s.step canonicalUrl (.addUrl url)).windows key, w ∈ s.windows key ∨
      key = canonicalUrl url ∧ w = ⟨s.calls.length, s.now - echoSlackMs, none, s.now⟩ := by
    intro key w hw
    simp only [ReplayDevice.step, expectEcho, Function.update_apply] at hw
    split at hw
    · rename_i hkey
      rcases List.mem_append.mp hw with hw | hw
      · exact Or.inl (hkey ▸ hw)
      · exact Or.inr ⟨hkey, List.mem_singleton.mp hw⟩
    · exact Or.inl hw
  constructor
  · exact h.accounts.step (.addUrl url)
  · intro key
    simp only [ReplayDevice.step, expectEcho, Function.update_apply]
    split
    · rename_i hkey
      refine List.pairwise_append.mpr ⟨h.apart _, List.pairwise_singleton _ _, fun w hw w' hw' => ?_⟩
      rw [List.mem_singleton.mp hw']
      obtain ⟨t, hcloses, ht⟩ := hclosed w hw
      intro time htime
      simp only [ReplayWindow.contains, hcloses, Option.all_some, Bool.and_eq_true,
        decide_eq_true_eq] at htime
      simp only [ReplayWindow.contains, Option.all_none, Bool.and_true, decide_eq_false_iff_not, not_le]
      exact htime.2.trans_lt ht
    · exact h.apart _
  · intro key w hw
    rcases hsplit key w hw with hw | ⟨-, rfl⟩
    · exact (h.awaited key w hw).imp_left fun ⟨c, hc, hc'⟩ => ⟨c, hold hc, hc'⟩
    · exact Or.inl ⟨_, List.getElem?_concat_length, rfl, rfl⟩
  · intro n c hc hperformed hended
    simp only [ReplayDevice.step, List.getElem?_append] at hc
    split at hc
    · obtain ⟨w, hw, hcall⟩ := h.open' n c hc hperformed hended
      exact ⟨w, hwindows _ w hw, hcall⟩
    · rw [List.getElem?_singleton] at hc
      split at hc
      · obtain rfl := Option.some.inj hc
        refine ⟨⟨s.calls.length, s.now - echoSlackMs, none, s.now⟩, ?_, ?_⟩
        · simp [ReplayDevice.step, expectEcho]
        · simp only
          omega
      · cases hc
  · intro event hevent n horigin
    obtain ⟨⟨w, hw, hw'⟩, c, hc, hperformed⟩ := h.echo event hevent n horigin
    exact ⟨⟨w, hwindows _ w hw, hw'⟩, c, hold hc, hperformed⟩
  · intro event hevent horigin w hw
    rcases hsplit _ w hw with hw | ⟨hkey, rfl⟩
    · exact h.user event hevent horigin w hw
    · simp only [ReplayWindow.contains, Option.all_none, Bool.and_true, decide_eq_false_iff_not, not_le]
      exact hdelivered event hevent hkey horigin
  · exact h.distinct
  · intro c hc t
    rcases List.mem_append.mp hc with hc | hc
    · exact h.kept c hc t
    · rw [List.mem_singleton.mp hc]
      exact nofun
  · intro c hc
    rcases List.mem_append.mp hc with hc | hc
    · exact h.started c hc
    · rw [List.mem_singleton.mp hc]
      exact s.now_le
  · exact h.captured
  · exact h.swallowed

/-- The window of a call that has not ended is open since the call. -/
theorem Accounts.contains_of_open (h : Accounts canonicalUrl s) (hw : w ∈ s.windows key)
    {c : ReplayCall} (hc : s.calls[w.call]? = some c) (hended : c.ended = none) {time : ℚ}
    (htime : c.startedAt ≤ time) : w.contains time = true := by
  obtain ⟨c', hc', -, hopens, hends⟩ := (h.window key w hw).exists_call
  rw [hc] at hc'
  obtain rfl := Option.some.inj hc'
  rcases hends with ⟨-, hcloses⟩ | ⟨t, hresolved, -⟩
  · simp only [ReplayWindow.contains, hcloses, Option.all_none, Bool.and_true, decide_eq_true_eq, hopens,
      echoSlackMs]
    linarith
  · rw [hended] at hresolved
    cases hresolved

/-- The browser records the visit of a call. -/
theorem Paired.perform (h : Paired canonicalUrl s) {called : String}
    (hcall : s.calls[n]? = some ⟨called, startedAt, false, none⟩)
    (hurl : canonicalUrl url = canonicalUrl called) :
    Paired canonicalUrl (announce
      { s with calls := s.calls.modify n fun c => { c with performed := true } } ⟨url, s.time, some n⟩) := by
  have hget : ∀ m, (s.calls.modify n fun c => { c with performed := true })[m]? =
      (s.calls[m]?).map fun c => if n = m then { c with performed := true } else c := fun m =>
    getElem?_modify_calls n m
  have hmem : ∀ c ∈ s.calls.modify n fun c => { c with performed := true }, ∃ old ∈ s.calls,
      c.ended = old.ended ∧ c.startedAt = old.startedAt := by
    intro c hc
    obtain ⟨m, hm⟩ := List.mem_iff_getElem?.mp hc
    rw [hget] at hm
    obtain ⟨old, hold, rfl⟩ := Option.map_eq_some_iff.mp hm
    refine ⟨old, List.mem_of_getElem? hold, ?_⟩
    split <;> exact ⟨rfl, rfl⟩
  constructor
  · exact h.accounts.perform n url
  · exact h.apart
  · intro key w hw
    by_cases hn : w.call = n
    · exact Or.inr ⟨⟨url, s.time, some n⟩, List.mem_append_right _ (List.mem_singleton_self _),
        hn ▸ rfl⟩
    · rcases h.awaited key w hw with ⟨c, hc, hopen⟩ | ⟨event, hevent, horigin⟩
      · refine Or.inl ⟨c, ?_, hopen⟩
        simp [announce, hget, hc, Ne.symm hn]
      · exact Or.inr ⟨event, List.mem_append_left _ hevent, horigin⟩
  · intro m c hc hperformed hended
    simp only [announce, hget] at hc
    obtain ⟨old, hold, rfl⟩ := Option.map_eq_some_iff.mp hc
    split at hperformed
    · cases hperformed
    · rename_i hne
      rw [if_neg hne] at hended ⊢
      exact h.open' m old hold hperformed hended
  · intro event hevent m horigin
    rcases List.mem_append.mp hevent with hevent | hevent
    · obtain ⟨hw, c, hc, hperformed⟩ := h.echo event hevent m horigin
      refine ⟨hw, _, (hget m).trans (congrArg _ hc), ?_⟩
      simp only
      split
      · rfl
      · exact hperformed
    · rw [List.mem_singleton.mp hevent] at horigin ⊢
      obtain rfl := Option.some.inj horigin
      obtain ⟨w, hw, hwn⟩ := h.open' n _ hcall rfl rfl
      refine ⟨⟨w, hurl ▸ hw, hwn, ?_⟩, ⟨called, startedAt, true, none⟩, ?_, rfl⟩
      · exact h.accounts.contains_of_open hw (hwn ▸ hcall) rfl (h.started _ (List.mem_of_getElem? hcall))
      · simp [announce, hget, hcall]
  · intro event hevent horigin
    rcases List.mem_append.mp hevent with hevent | hevent
    · exact h.user event hevent horigin
    · rw [List.mem_singleton.mp hevent] at horigin
      cases horigin
  · -- The call has no echo yet, as it had not been performed.
    have hnew : n ∉ s.pending.filterMap VisitEvent.origin := by
      intro hmem
      obtain ⟨event, hevent, horigin⟩ := List.mem_filterMap.mp hmem
      obtain ⟨-, c, hc, hperformed⟩ := h.echo event hevent n horigin
      rw [hcall] at hc
      obtain rfl := Option.some.inj hc
      cases hperformed
    simp only [announce, List.filterMap_append, List.filterMap_cons, List.filterMap_nil]
    refine List.nodup_append.mpr ⟨h.distinct, List.nodup_singleton _, fun a ha b hb heq => ?_⟩
    rw [List.mem_singleton.mp hb] at heq
    exact hnew (heq ▸ ha)
  · intro c hc t
    obtain ⟨old, hold, hended, -⟩ := hmem c hc
    rw [hended]
    exact h.kept old hold t
  · intro c hc
    obtain ⟨old, hold, -, hstart⟩ := hmem c hc
    rw [hstart]
    exact h.started old hold
  · exact h.captured
  · exact h.swallowed

/-- What a call that ends leaves as it was. -/
theorem getElem?_endCall {m : ℕ} :
    (s.endCall n how).calls[m]? =
      (s.calls[m]?).map fun c => if n = m then { c with ended := some (s.now, how) } else c :=
  getElem?_modify_calls n m

theorem mem_endCall {c : ReplayCall} (hc : c ∈ (s.endCall n how).calls) :
    ∃ old ∈ s.calls, c.startedAt = old.startedAt ∧
      (c.ended = old.ended ∨ c.ended = some (s.now, how)) := by
  obtain ⟨m, hm⟩ := List.mem_iff_getElem?.mp hc
  rw [getElem?_endCall] at hm
  obtain ⟨old, hold, rfl⟩ := Option.map_eq_some_iff.mp hm
  refine ⟨old, List.mem_of_getElem? hold, ?_⟩
  split
  · exact ⟨rfl, Or.inr rfl⟩
  · exact ⟨rfl, Or.inl rfl⟩

/-- A call ends, where it is not abandoned, and each window keeps the times it may still be asked for. -/
theorem Paired.endCall (h : Paired canonicalUrl s) {windows : String → List ReplayWindow}
    (hhow : how ≠ .abandoned) (hs' : s' = { s.endCall n how with windows := windows })
    (haccounts : Accounts canonicalUrl s') (hapart : ∀ key, (windows key).Pairwise Apart)
    (hold : ∀ key, ∀ w ∈ windows key, ∃ old ∈ s.windows key,
      w.call = old.call ∧ ∀ time, w.contains time = true → old.contains time = true)
    (hawaited : ∀ key, ∀ w ∈ windows key, w.call = n → Awaited s' w)
    (hopen : ∀ key, ∀ w ∈ s.windows key, w.call ≠ n → ∃ w' ∈ windows key, w'.call = w.call)
    (hecho : ∀ event ∈ s.pending, ∀ m, event.origin = some m →
      ∃ w ∈ windows (canonicalUrl event.url), w.call = m ∧ w.contains event.time = true) :
    Paired canonicalUrl s' := by
  subst hs'
  constructor
  · exact haccounts
  · exact hapart
  · intro key w hw
    by_cases hn : w.call = n
    · exact hawaited key w hw hn
    · obtain ⟨old, hmem, hcall, -⟩ := hold key w hw
      rcases h.awaited key old hmem with ⟨c, hc, hopen'⟩ | ⟨event, hevent, horigin⟩
      · refine Or.inl ⟨c, ?_, hopen'⟩
        simp [getElem?_endCall, hcall, hc, hcall ▸ Ne.symm hn]
      · exact Or.inr ⟨event, hevent, hcall ▸ horigin⟩
  · intro m c hc hperformed hended
    simp only [getElem?_endCall] at hc
    obtain ⟨old, hmem, rfl⟩ := Option.map_eq_some_iff.mp hc
    split at hended
    · cases hended
    · rename_i hne
      rw [if_neg hne] at hperformed ⊢
      obtain ⟨w, hw, hwm⟩ := h.open' m old hmem hperformed hended
      obtain ⟨w', hw', hcall⟩ := hopen _ w hw (fun heq => hne (heq ▸ hwm))
      exact ⟨w', hw', hcall.trans hwm⟩
  · intro event hevent m horigin
    obtain ⟨-, c, hc, hperformed⟩ := h.echo event hevent m horigin
    refine ⟨hecho event hevent m horigin, _, getElem?_endCall.trans (congrArg _ hc), ?_⟩
    simp only
    split <;> exact hperformed
  · intro event hevent horigin w hw
    obtain ⟨old, hmem, -, hcontains⟩ := hold _ w hw
    rw [Bool.eq_false_iff]
    intro htime
    have hcontains := hcontains _ htime
    rw [h.user event hevent horigin old hmem] at hcontains
    cases hcontains
  · exact h.distinct
  · intro c hc t
    obtain ⟨old, hmem, -, heq | heq⟩ := mem_endCall hc
    · exact heq ▸ h.kept old hmem t
    · rw [heq]
      exact fun hsome => hhow (Prod.mk.inj (Option.some.inj hsome)).2
  · intro c hc
    obtain ⟨old, hmem, hstart, -⟩ := mem_endCall hc
    exact hstart ▸ h.started old hmem
  · exact h.captured
  · exact h.swallowed

/-- A call resolves, and its window is closed after what it has recorded. -/
theorem Paired.resolve (h : Paired canonicalUrl s)
    (hcall : s.calls[n]? = some ⟨url, startedAt, true, none⟩) :
    Paired canonicalUrl
      ((s.closeWindow canonicalUrl url n (s.now + echoSlackMs)).endCall n .resolved) := by
  let close : ReplayWindow → ReplayWindow := fun w =>
    if w.call = n then { w with closes := some (s.now + echoSlackMs) } else w
  have hwindows : ∀ key, (s.closeWindow canonicalUrl url n (s.now + echoSlackMs)).windows key =
      (s.windows key).map close := by
    intro key
    simp only [closeWindow, Function.update_apply]
    split
    · rename_i hkey
      rw [hkey]
    · rename_i hkey
      refine ((List.map_congr_left fun w hw => ?_).trans (List.map_id _)).symm
      refine if_neg fun hn => hkey ?_
      obtain ⟨c, hc, hurl, -⟩ := (h.accounts.window key w hw).exists_call
      rw [hn, hcall] at hc
      rw [← hurl, ← Option.some.inj hc]
  have hclose : ∀ w, (close w).call = w.call := fun w => by
    simp only [close]
    split <;> rfl
  -- The window had no end before.
  have hcontains : ∀ key, ∀ w ∈ s.windows key, ∀ time, (close w).contains time = true →
      w.contains time = true := by
    intro key w hw time htime
    by_cases hn : w.call = n
    · obtain ⟨c, hc, -, -, ⟨-, hcloses⟩ | ⟨t, hended, -⟩⟩ := (h.accounts.window key w hw).exists_call
      · simp only [close, if_pos hn, ReplayWindow.contains, Bool.and_eq_true] at htime
        simp only [ReplayWindow.contains, hcloses, Option.all_none, Bool.and_true]
        exact htime.1
      · rw [hn, hcall] at hc
        obtain rfl := Option.some.inj hc
        cases hended
    · simpa only [close, if_neg hn] using htime
  refine h.endCall (n := n) (show CallEnd.resolved ≠ .abandoned by nofun) rfl
    (h.accounts.resolve hcall) (fun key => ?_) (fun key w hw => ?_) (fun key w hw hn => ?_)
    (fun key w hw hn => ?_) (fun event hevent m horigin => ?_)
  · rw [hwindows, List.pairwise_map]
    refine (h.apart key).imp_of_mem fun {w w'} hw hw' hapart time htime => ?_
    rw [Bool.eq_false_iff]
    intro htime'
    have := hapart time (hcontains key w hw time htime)
    rw [hcontains key w' hw' time htime'] at this
    cases this
  · rw [hwindows] at hw
    obtain ⟨old, hold, rfl⟩ := List.mem_map.mp hw
    exact ⟨old, hold, hclose old, hcontains key old hold⟩
  · rw [hwindows] at hw
    obtain ⟨old, hold, rfl⟩ := List.mem_map.mp hw
    rw [hclose] at hn
    rcases h.awaited key old hold with ⟨c, hc, hperformed, -⟩ | ⟨event, hevent, horigin⟩
    · rw [hn, hcall] at hc
      obtain rfl := Option.some.inj hc
      cases hperformed
    · exact Or.inr ⟨event, hevent, hclose old ▸ horigin⟩
  · exact ⟨close w, hwindows key ▸ List.mem_map_of_mem hw, hclose w⟩
  · obtain ⟨⟨w, hw, hwm, htime⟩, -⟩ := h.echo event hevent m horigin
    refine ⟨close w, hwindows _ ▸ List.mem_map_of_mem hw, (hclose w).trans hwm, ?_⟩
    by_cases hn : w.call = n
    · have hpast := h.accounts.le_now_add
        (h.accounts.all.mem_iff.mpr (List.mem_append_left _ hevent))
      simp only [ReplayWindow.contains, Bool.and_eq_true] at htime
      simp only [close, if_pos hn, ReplayWindow.contains, Option.all_some, Bool.and_eq_true,
        decide_eq_true_eq]
      exact ⟨of_decide_eq_true htime.1, hpast⟩
    · simpa only [close, if_neg hn] using htime

/-- A call is rejected: it has no echo, and its window is taken back. -/
theorem Paired.reject (h : Paired canonicalUrl s)
    (hcall : s.calls[n]? = some ⟨url, startedAt, false, none⟩) :
    Paired canonicalUrl ((s.forgetEcho canonicalUrl url n).endCall n .rejected) := by
  have hsublist : ∀ key, ((s.forgetEcho canonicalUrl url n).windows key).Sublist (s.windows key) := by
    intro key
    simp only [forgetEcho, Function.update_apply]
    split
    · rename_i hkey
      exact hkey ▸ List.eraseP_sublist
    · exact List.Sublist.refl _
  have hkeep : ∀ key, ∀ w ∈ s.windows key, w.call ≠ n →
      w ∈ (s.forgetEcho canonicalUrl url n).windows key := by
    intro key w hw hn
    simp only [forgetEcho, Function.update_apply]
    split
    · rename_i hkey
      exact (List.mem_eraseP_of_neg (by simpa using hn)).mpr (hkey ▸ hw)
    · exact hw
  refine h.endCall (n := n) (show CallEnd.rejected ≠ .abandoned by nofun) rfl
    (h.accounts.reject hcall) (fun key => (h.apart key).sublist (hsublist key))
    (fun key w hw => ⟨w, (hsublist key).subset hw, rfl, fun _ htime => htime⟩)
    (fun key w hw hn => absurd hn (h.accounts.call_ne_of_forgetEcho hcall hw))
    (fun key w hw hn => ⟨w, hkeep key w hw hn, rfl⟩) (fun event hevent m horigin => ?_)
  obtain ⟨⟨w, hw, hwm, htime⟩, c, hc, hperformed⟩ := h.echo event hevent m horigin
  refine ⟨w, hkeep _ w hw fun hn => ?_, hwm, htime⟩
  rw [← hwm, hn, hcall] at hc
  obtain rfl := Option.some.inj hc
  cases hperformed

/-- What is to be delivered besides an event. -/
theorem mem_eraseIdx_of_ne {e : VisitEvent} (hevent : s.pending[i]? = some event) (he : e ∈ s.pending)
    (hne : e ≠ event) : e ∈ s.pending.eraseIdx i := by
  obtain ⟨hi, hget⟩ := List.getElem?_eq_some_iff.mp hevent
  have hmem := (List.getElem_cons_eraseIdx_perm hi).mem_iff.mpr he
  rw [hget] at hmem
  exact (List.mem_cons.mp hmem).resolve_left hne

/-- An event of the user is delivered: it is captured, and the windows stay as they are. -/
theorem Paired.deliver_user (h : Paired canonicalUrl s) (hevent : s.pending[i]? = some event)
    (horigin : event.origin = none) :
    Paired canonicalUrl (listen canonicalUrl { s with pending := s.pending.eraseIdx i } event) := by
  have hmem := List.mem_of_getElem? hevent
  have hsublist : (s.pending.eraseIdx i).Sublist s.pending := List.eraseIdx_sublist _ _
  have haccounts := h.accounts.deliver hevent
  have hnone : (s.windows (canonicalUrl event.url)).find? (·.contains event.time) = none :=
    List.find?_eq_none.mpr fun w hw => by simp [h.user event hmem horigin w hw]
  have hlisten : listen canonicalUrl { s with pending := s.pending.eraseIdx i } event =
      { s with pending := s.pending.eraseIdx i, captured := s.captured ++ [event] } := by
    simp only [listen, hnone]
  rw [hlisten] at haccounts ⊢
  constructor
  · exact haccounts
  · exact h.apart
  · intro key w hw
    refine (h.awaited key w hw).imp_right fun ⟨e, he, hcall⟩ =>
      ⟨e, mem_eraseIdx_of_ne hevent he fun heq => ?_, hcall⟩
    rw [heq, horigin] at hcall
    cases hcall
  · exact h.open'
  · exact fun e he => h.echo e (hsublist.subset he)
  · exact fun e he => h.user e (hsublist.subset he)
  · exact h.distinct.sublist (hsublist.filterMap _)
  · exact h.kept
  · exact h.started
  · intro e he
    rcases List.mem_append.mp he with he | he
    · exact h.captured e he
    · rw [List.mem_singleton.mp he]
      exact horigin
  · exact h.swallowed

/-- An echo is delivered: it is dropped, and takes its own window with it. -/
theorem Paired.deliver_echo (h : Paired canonicalUrl s) (hevent : s.pending[i]? = some event)
    (horigin : event.origin = some n) :
    Paired canonicalUrl (listen canonicalUrl { s with pending := s.pending.eraseIdx i } event) := by
  have hmem := List.mem_of_getElem? hevent
  have hsublist : (s.pending.eraseIdx i).Sublist s.pending := List.eraseIdx_sublist _ _
  have haccounts := h.accounts.deliver hevent
  obtain ⟨⟨w, hw, hwn, htime⟩, c, hc, hperformed⟩ := h.echo event hmem n horigin
  -- The first window the time lies in is that of the call.
  obtain ⟨w', hfind⟩ : ∃ w', (s.windows (canonicalUrl event.url)).find? (·.contains event.time) = some w' :=
    Option.isSome_iff_exists.mp (List.find?_isSome.mpr ⟨w, hw, htime⟩)
  obtain ⟨before, after, hsplit, herase, htime'⟩ := eraseP_of_find? hfind
  obtain rfl : w' = w := h.eq_of_contains (hsplit ▸ List.mem_append_right _ List.mem_cons_self) hw
    htime' htime
  have hlisten : listen canonicalUrl { s with pending := s.pending.eraseIdx i } event =
      { s with
        pending := s.pending.eraseIdx i
        windows := Function.update s.windows (canonicalUrl event.url) (before ++ after)
        swallowed := s.swallowed ++ [(event, n)] } := by
    simp only [listen, hfind, herase, hwn]
  rw [hlisten] at haccounts ⊢
  have hsub : ∀ key, (Function.update s.windows (canonicalUrl event.url) (before ++ after) key).Sublist
      (s.windows key) := by
    intro key
    rw [Function.update_apply]
    split
    · rename_i hkey
      rw [hkey, hsplit]
      exact (List.Sublist.refl _).append (List.sublist_cons_self _ _)
    · exact List.Sublist.refl _
  have hkeep : ∀ key, ∀ v ∈ s.windows key, v.call ≠ n →
      v ∈ Function.update s.windows (canonicalUrl event.url) (before ++ after) key := by
    intro key v hv hvn
    rw [Function.update_apply]
    split
    · rename_i hkey
      rw [hkey, hsplit] at hv
      rcases List.mem_append.mp hv with hv | hv
      · exact List.mem_append_left _ hv
      · rcases List.mem_cons.mp hv with rfl | hv
        · exact absurd hwn hvn
        · exact List.mem_append_right _ hv
    · exact hv
  have hgone : ∀ key, ∀ v ∈ Function.update s.windows (canonicalUrl event.url) (before ++ after) key,
      v.call ≠ n := by
    intro key v hv heq
    refine haccounts.unspent key v hv ?_
    rw [List.map_append, List.map_singleton, heq]
    exact List.mem_append_right _ (List.mem_singleton_self _)
  constructor
  · exact haccounts
  · exact fun key => (h.apart key).sublist (hsub key)
  · intro key v hv
    refine (h.awaited key v ((hsub key).subset hv)).imp_right fun ⟨e, he, hcall⟩ =>
      ⟨e, mem_eraseIdx_of_ne hevent he fun heq => ?_, hcall⟩
    rw [heq, horigin] at hcall
    exact hgone key v hv (Option.some.inj hcall).symm
  · intro m c' hc' hperformed' hended
    obtain ⟨v, hv, hvm⟩ := h.open' m c' hc' hperformed' hended
    refine ⟨v, hkeep _ v hv fun hvn => ?_, hvm⟩
    rw [← hvm, hvn, hc] at hc'
    obtain rfl := Option.some.inj hc'
    rw [hperformed] at hperformed'
    cases hperformed'
  · intro e he m hm
    obtain ⟨⟨v, hv, hvm, hvtime⟩, hcall⟩ := h.echo e (hsublist.subset he) m hm
    refine ⟨⟨v, hkeep _ v hv fun hvn => ?_, hvm, hvtime⟩, hcall⟩
    -- The echoes that are still to come are of other calls.
    obtain ⟨hi, hget⟩ := List.getElem?_eq_some_iff.mp hevent
    have hdistinct := ((List.getElem_cons_eraseIdx_perm hi).filterMap VisitEvent.origin).nodup_iff.mpr
      h.distinct
    rw [hget, List.filterMap_cons_some horigin, List.nodup_cons] at hdistinct
    exact hdistinct.1 (List.mem_filterMap.mpr ⟨e, he, by rw [hm, ← hvm, hvn]⟩)
  · exact fun e he hnone v hv => h.user e (hsublist.subset he) hnone v ((hsub _).subset hv)
  · exact h.distinct.sublist (hsublist.filterMap _)
  · exact h.kept
  · exact h.started
  · exact h.captured
  · intro p hp
    rcases List.mem_append.mp hp with hp | hp
    · exact h.swallowed p hp
    · rw [List.mem_singleton.mp hp]
      exact horigin

/-- **Every event** that does not disturb keeps the invariant. -/
theorem Paired.step (h : Paired canonicalUrl s) {e : ReplayEvent}
    (hquiet : Undisturbed canonicalUrl s e) :
    Paired canonicalUrl (s.step canonicalUrl e) := by
  cases e with
  | tick time => exact h.tick time
  | visit url => exact h.visit hquiet
  | addUrl url => exact h.addUrl hquiet
  | perform n url =>
    simp only [ReplayDevice.step]
    split
    · rename_i hcall
      split
      · rename_i hurl
        exact h.perform hcall hurl
      · exact h
    · rename_i t hcall
      exact absurd rfl (h.kept _ (List.mem_of_getElem? hcall) t)
    · exact h
  | resolve n =>
    simp only [ReplayDevice.step]
    split
    · rename_i hcall
      exact h.resolve hcall
    · exact h
  | reject n =>
    simp only [ReplayDevice.step]
    split
    · rename_i hcall
      exact h.reject hcall
    · exact h
  | deliver i =>
    simp only [ReplayDevice.step]
    split
    · rename_i event hevent
      cases horigin : event.origin with
      | none => exact h.deliver_user hevent horigin
      | some n => exact h.deliver_echo hevent horigin
    · exact h
  | sweep =>
    have hwindows : (s.step canonicalUrl .sweep).windows = s.windows := by
      funext key
      exact List.filter_eq_self.mpr fun w hw => decide_eq_true (hquiet key w hw)
    have hsame : s.step canonicalUrl .sweep = { s with windows := (s.step canonicalUrl .sweep).windows } :=
      rfl
    rw [hsame, hwindows]
    exact h
  | restart => exact hquiet.elim

theorem paired_of_undisturbed {es : List ReplayEvent}
    (hes : Runs.Meets (ReplayDevice.step canonicalUrl) (Undisturbed canonicalUrl) start es) :
    Paired canonicalUrl (run canonicalUrl es) :=
  Runs.invariant_of_meets (I := Paired canonicalUrl) (fun _ _ h hquiet => h.step hquiet) paired_start hes

/-- **The visits of the user are captured, and nothing else**: in every run that nothing disturbs, the
events that were captured are exactly the visits of the user that were delivered, each that was dropped
is the echo of the call it was dropped for, and once all calls have ended and all events are delivered,
no window is left that might swallow a later visit. -/
theorem captured_of_undisturbed (canonicalUrl : String → String) (es : List ReplayEvent)
    (hes : Runs.Meets (ReplayDevice.step canonicalUrl) (Undisturbed canonicalUrl) start es) :
    let s := run canonicalUrl es
    (s.happened.filter (·.origin.isNone)).Perm (s.pending.filter (·.origin.isNone) ++ s.captured) ∧
      (∀ p ∈ s.swallowed, p.1.origin = some p.2) ∧
      (s.pending = [] → (∀ c ∈ s.calls, c.ended.isSome) → ∀ key, s.windows key = []) := by
  have h := paired_of_undisturbed hes
  refine ⟨?_, h.swallowed, fun hpending hended key => ?_⟩
  · have hcaptured : (run canonicalUrl es).captured.filter (·.origin.isNone) =
        (run canonicalUrl es).captured :=
      List.filter_eq_self.mpr fun e he => by rw [h.captured e he]; rfl
    have hswallowed : ((run canonicalUrl es).swallowed.map Prod.fst).filter (·.origin.isNone) = [] := by
      refine List.filter_eq_nil_iff.mpr fun e he => ?_
      obtain ⟨p, hp, rfl⟩ := List.mem_map.mp he
      rw [h.swallowed p hp]
      exact Bool.false_ne_true
    have hall := h.accounts.all.filter (·.origin.isNone)
    rwa [List.filter_append, List.filter_append, hcaptured, hswallowed, List.append_nil] at hall
  · refine List.eq_nil_iff_forall_not_mem.mpr fun w hw => ?_
    rcases h.awaited key w hw with ⟨c, hc, -, hnone⟩ | ⟨event, hevent, -⟩
    · have hsome := hended c (List.mem_of_getElem? hc)
      rw [hnone] at hsome
      cases hsome
    · rw [hpending] at hevent
      cases hevent

/-- A page is replayed, its echo is late, and the user visits the page meanwhile. -/
def lateEcho : List ReplayEvent :=
  [.tick 1000, .addUrl "a", .perform 0 "a", .resolve 0, .tick 2000, .visit "a", .deliver 1, .deliver 0]

theorem undisturbed_lateEcho : Runs.Meets (ReplayDevice.step id) (Undisturbed id) start lateEcho := by
  simp only [lateEcho, Runs.Meets, Undisturbed, ReplayDevice.step, start, expectEcho, announce,
    closeWindow, endCall, ReplayWindow.contains, now, echoSlackMs]
  norm_num

/-- The visit is captured, and the echo is not. -/
theorem captured_lateEcho :
    (run id lateEcho).captured = [⟨"a", 2000, none⟩] ∧
      (run id lateEcho).swallowed = [(⟨"a", 1000, some 0⟩, 0)] ∧
      ∀ key, (run id lateEcho).windows key = [] :=
  ⟨by decide +kernel, by decide +kernel,
    (captured_of_undisturbed id lateEcho undisturbed_lateEcho).2.2 (by decide +kernel)
      (by decide +kernel)⟩

end ReplayDevice

end Client

end HelixSync
