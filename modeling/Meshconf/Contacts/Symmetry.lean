import Meshconf.Contacts.Agreement

/-! # Entries are mutual

As long as nothing fails, every connection is accepted, answered and entered at both of
its ends, and no connection is ever made where there is one.
-/

namespace Contacts

variable {K M : Type*}

namespace State

variable {s s' : State K M} {x y a b : K} {n t : ℕ}

/-- Unanswered connections are awaited and queued, and answered ones are entered. -/
structure Mutual (s : State K M) : Prop where
  waiting : ∀ l ∈ s.links, l.reply = none → s.awaiting l.dialer = some l.dialerSerial
  queued : ∀ l ∈ s.links, l.reply = none → ∀ t ∈ l.acceptorSerial,
    (t, l.dialer) ∈ s.queue l.acceptor
  backed : ∀ y, ∀ q ∈ s.queue y, ∃ l ∈ s.links, l.AcceptedAs y q.1 ∧ l.dialer = q.2 ∧
    l.reply = none
  kept : ∀ l ∈ s.links, l.reply ≠ none → s.entry l.acceptor l.dialer ≠ none
  entry : ∀ x y, s.entry x y ≠ none → s.entry y x ≠ none ∨
    ∃ l ∈ s.links, l.dialer = y ∧ l.acceptor = x ∧ l.reply ≠ none ∧
      s.awaiting y = some l.dialerSerial

theorem Mutual.init : ({} : State K M).Mutual := by
  constructor <;> simp

/-- While nobody awaits an answer, entries are mutual. -/
theorem Mutual.symm (hm : s.Mutual) (hquiet : ∀ x, s.awaiting x = none) (h : s.entry x y ≠ none) :
    s.entry y x ≠ none := by
  rcases hm.entry x y h with hsome | ⟨l, -, -, -, -, hwait⟩
  · exact hsome
  · cases (hquiet y).symm.trans hwait

variable [LinearOrder K]

theorem enter_ne_none (h : s.entry a b ≠ none) : (s.enter x y n).entry a b ≠ none := by
  rw [entry_enter]
  split
  · exact Option.some_ne_none n
  · exact h

theorem enter_self : (s.enter x y n).entry x y ≠ none := by simp [entry_enter]

/-- Entries stay. -/
theorem Step.entry_ne_none (h : s.Step s') (hab : s.entry a b ≠ none) : s'.entry a b ≠ none := by
  cases h with
  | answer => exact enter_ne_none hab
  | complete => exact enter_ne_none hab
  | _ => exact hab

namespace Mutual

theorem connect (hm : s.Mutual) (hs : s.Sound) (hello : M) (hdial : s.dialing x = some y) :
    (s.connect x y hello).Mutual := by
  have hnone := (hs.ordered.dialing x y hdial).1
  have hne : ∀ z m, s.awaiting z = some m → z ≠ x := by
    rintro z m hz rfl
    cases hnone.symm.trans hz
  constructor
  · rintro l hl hr
    rcases mem_dialed hl with hl | rfl
    · have hwait := hm.waiting l hl hr
      simpa only [State.connect, Function.update_of_ne (hne _ _ hwait)] using hwait
    · simp [State.connect]
  · rintro l hl hr t ht
    rcases mem_dialed hl with hl | rfl
    · exact hm.queued l hl hr t ht
    · cases ht
  · rintro z q hq
    obtain ⟨l, hl, hacc⟩ := hm.backed z q hq
    exact ⟨l, List.mem_append_left _ hl, hacc⟩
  · rintro l hl hr
    rcases mem_dialed hl with hl | rfl
    · exact hm.kept l hl hr
    · exact absurd rfl hr
  · rintro a b hab
    refine (hm.entry a b hab).imp_right ?_
    rintro ⟨l, hl, hb, ha, hr, hwait⟩
    refine ⟨l, List.mem_append_left _ hl, hb, ha, hr, ?_⟩
    simpa only [State.connect, Function.update_of_ne (hne _ _ hwait)] using hwait

theorem accept (hm : s.Mutual) (hs : s.Sound) {l : Link K M} (hl : l ∈ s.links)
    (hnone : l.acceptorSerial = none) : (s.accept l).Mutual := by
  have hreply : l.reply = none := by
    by_contra hr
    obtain ⟨t, ht, -⟩ := hs.wired.answered l hl hr
    cases hnone.symm.trans ht
  have hpush : ∀ z, ∀ q ∈ s.queue z, q ∈ (s.accept l).queue z := by
    rintro z q hq
    by_cases hz : z = l.acceptor
    · subst hz
      simp [State.accept, State.push, hq]
    · simpa only [State.accept, State.push, Function.update_of_ne hz] using hq
  constructor
  · rintro _ hmem hr
    obtain ⟨l₁, hl₁, rfl⟩ := List.mem_map.mp hmem
    simp only [Link.dialer_accept, Link.dialerSerial_accept, Link.reply_accept] at hr ⊢
    exact hm.waiting l₁ hl₁ hr
  · rintro _ hmem hr t ht
    obtain ⟨l₁, hl₁, rfl⟩ := List.mem_map.mp hmem
    simp only [Link.dialer_accept, Link.acceptor_accept, Link.reply_accept] at hr ⊢
    rcases Contacts.Wired.mem_accept hs.wired hl hl₁ ht with ⟨rfl, rfl⟩ | hold
    · simp [State.accept, State.push]
    · exact hpush _ _ (hm.queued l₁ hl₁ hr t hold)
  · rintro z q hq
    rcases Contacts.Wired.mem_push hq with hold | ⟨rfl, rfl⟩
    · obtain ⟨l₁, hl₁, ⟨hz, ht⟩, hdialer, hr⟩ := hm.backed z q hold
      refine ⟨_, List.mem_map_of_mem hl₁, ⟨by simpa using hz, ?_⟩, by simpa using hdialer,
        by simpa using hr⟩
      exact Contacts.Wired.mem_accept_of_mem hs.wired hl hnone hl₁ ht
    · refine ⟨_, List.mem_map_of_mem hl, ⟨by simp, ?_⟩, by simp, by simpa using hreply⟩
      simp [Link.acceptorSerial_accept, Link.DialedAs]
  · rintro _ hmem hr
    obtain ⟨l₁, hl₁, rfl⟩ := List.mem_map.mp hmem
    simp only [Link.dialer_accept, Link.acceptor_accept, Link.reply_accept] at hr ⊢
    exact hm.kept l₁ hl₁ hr
  · rintro a b hab
    refine (hm.entry a b hab).imp_right ?_
    rintro ⟨l₁, hl₁, hb, ha, hr, hwait⟩
    refine ⟨_, List.mem_map_of_mem hl₁, by simpa using hb, by simpa using ha, by simpa using hr, ?_⟩
    rwa [Link.dialerSerial_accept]

/-- The first connection in a queue is awaited by its dialer, who has no entry for us. -/
theorem head (hm : s.Mutual) (hs : s.Sound) (hq : (t, x) ∈ (s.queue y).head?) :
    ∃ l ∈ s.links, l.AcceptedAs y t ∧ l.dialer = x ∧ s.awaiting x = some l.dialerSerial ∧
      l.reply = none ∧ s.entry x y = none := by
  obtain ⟨l, hl, ⟨rfl, ht⟩, rfl, hr⟩ := hm.backed y (t, x) (List.mem_of_mem_head? hq)
  have hwait := hm.waiting l hl hr
  exact ⟨l, hl, ⟨rfl, ht⟩, rfl, hwait, hr, hs.agreeing.awaiting l hl hwait⟩

/-- No connection comes in where there is an entry. -/
theorem entry_head (hm : s.Mutual) (hs : s.Sound) (hq : (t, x) ∈ (s.queue y).head?) :
    s.entry y x = none := by
  obtain ⟨l, hl, -, hdialer, hwait, hr, hnone⟩ := hm.head hs hq
  by_contra hentry
  rcases hm.entry y x hentry with hsome | ⟨l', hl', hdialer', -, hr', hwait'⟩
  · exact hsome hnone
  · obtain hserial : l'.dialerSerial = l.dialerSerial :=
      Option.some.inj (hwait'.symm.trans hwait)
    obtain rfl := hs.wired.unique l' hl' l hl (hdialer'.trans hdialer.symm) hserial
    exact hr' hr

theorem answer (hm : s.Mutual) (hs : s.Sound) {l : Link K M} (msg : M)
    (hq : (t, x) ∈ (s.queue y).head?) (hl : l ∈ s.links) (hacc : l.AcceptedAs y t) :
    (s.answer y x t msg).Mutual := by
  obtain ⟨hdialer, hreply⟩ := head_unanswered hs.wired hq hl hacc
  have hentry : (s.answer y x t msg).entry = (s.enter y x t).entry := rfl
  constructor
  · rintro _ hmem hr
    obtain ⟨l₁, hl₁, rfl⟩ := List.mem_map.mp hmem
    rw [Link.reply_answer] at hr
    split at hr
    · cases hr
    · rw [Link.dialer_answer, Link.dialerSerial_answer]
      exact hm.waiting l₁ hl₁ hr
  · rintro _ hmem hr t' ht'
    obtain ⟨l₁, hl₁, rfl⟩ := List.mem_map.mp hmem
    rw [Link.reply_answer] at hr
    simp only [Link.dialer_answer, Link.acceptor_answer, Link.acceptorSerial_answer] at ht' ⊢
    split at hr
    · cases hr
    · rename_i hother
      have hmem := hm.queued l₁ hl₁ hr t' ht'
      by_cases hy : l₁.acceptor = y
      · obtain ⟨rest, hrest⟩ := List.head?_eq_some_iff.mp hq
        rw [hy, hrest] at hmem
        simp only [State.answer, State.enter, State.pop, hy, Function.update_self, hrest,
          List.tail_cons]
        refine (List.mem_cons.mp hmem).resolve_left fun heq => hother ⟨hy, ?_⟩
        rw [← (Prod.mk.inj heq).1]
        exact ht'
      · simpa only [State.answer, State.enter, State.pop, Function.update_of_ne hy] using hmem
  · rintro z q hq'
    obtain ⟨l₁, hl₁, hacc₁, hdialer₁, hr⟩ := hm.backed z q (Contacts.Wired.mem_pop hq')
    refine ⟨_, List.mem_map_of_mem hl₁, by simpa [Link.AcceptedAs] using hacc₁,
      by simpa using hdialer₁, ?_⟩
    rw [Link.reply_answer, if_neg, hr]
    rintro ⟨hy, ht⟩
    obtain rfl := hacc₁.1.symm.trans hy
    have hlt : t < q.1 := by
      refine Contacts.Wired.head_lt hs.wired hq ?_
      simpa only [State.answer, State.enter, State.pop, hacc₁.1, Function.update_self] using hq'
    have heq : some q.1 = some t := hacc₁.2.symm.trans ht
    rw [Option.some.inj heq] at hlt
    exact Nat.lt_irrefl _ hlt
  · rintro _ hmem hr
    obtain ⟨l₁, hl₁, rfl⟩ := List.mem_map.mp hmem
    rw [Link.reply_answer] at hr
    simp only [Link.dialer_answer, Link.acceptor_answer]
    split at hr
    · rename_i hacc₁
      obtain rfl := hs.wired.uniqueAccepted l₁ hl₁ l hl (hacc₁.1.trans hacc.1.symm) t hacc₁.2 hacc.2
      rw [hacc.1, hdialer]
      exact enter_self
    · exact enter_ne_none (hm.kept l₁ hl₁ hr)
  · rintro a b hab
    rw [hentry, entry_enter] at hab
    split at hab
    · rename_i hyx
      obtain ⟨rfl, rfl⟩ := hyx
      refine .inr ⟨_, List.mem_map_of_mem hl, by simpa using hdialer, by simpa using hacc.1, ?_, ?_⟩
      · simp [Link.reply_answer, hacc]
      · have hwait := hm.waiting l hl hreply
        rw [hdialer] at hwait
        rwa [Link.dialerSerial_answer]
    · refine (hm.entry a b hab).imp enter_ne_none ?_
      rintro ⟨l₁, hl₁, hb, ha, hr, hwait⟩
      refine ⟨_, List.mem_map_of_mem hl₁, by simpa using hb, by simpa using ha,
        l₁.reply_answer_ne_none _ _ _ hr, ?_⟩
      rwa [Link.dialerSerial_answer]

theorem complete (hm : s.Mutual) (hs : s.Sound) {l : Link K M} (hl : l ∈ s.links)
    (hawaiting : s.awaiting l.dialer = some l.dialerSerial) (hreply : l.reply ≠ none) :
    (s.complete l.dialer l.acceptor l.dialerSerial).Mutual := by
  have hunique : ∀ l₁ ∈ s.links, s.awaiting l₁.dialer = some l₁.dialerSerial →
      l₁.dialer = l.dialer → l₁ = l := by
    rintro l₁ hl₁ hwait hdialer
    rw [hdialer, hawaiting] at hwait
    exact hs.wired.unique l₁ hl₁ l hl hdialer (Option.some.inj hwait).symm
  constructor
  · rintro l₁ hl₁ hr
    have hwait := hm.waiting l₁ hl₁ hr
    have hne : l₁.dialer ≠ l.dialer := fun hdialer => hreply (hunique l₁ hl₁ hwait hdialer ▸ hr)
    simpa only [State.complete, State.enter, State.giveUp, Function.update_of_ne hne] using hwait
  · exact hm.queued
  · exact hm.backed
  · exact fun l₁ hl₁ hr => enter_ne_none (hm.kept l₁ hl₁ hr)
  · rintro a b hab
    rw [show (s.complete l.dialer l.acceptor l.dialerSerial).entry =
      (s.enter l.dialer l.acceptor l.dialerSerial).entry from rfl, entry_enter] at hab
    split at hab
    · rename_i h
      obtain ⟨rfl, rfl⟩ := h
      exact .inl (enter_ne_none (hm.kept l hl hreply))
    · rcases hm.entry a b hab with hsome | ⟨l₁, hl₁, rfl, rfl, hr, hwait⟩
      · exact .inl (enter_ne_none hsome)
      · by_cases hdialer : l₁.dialer = l.dialer
        · obtain rfl := hunique l₁ hl₁ hwait hdialer
          exact .inl enter_self
        · refine .inr ⟨l₁, hl₁, rfl, rfl, hr, ?_⟩
          simpa only [State.complete, State.enter, State.giveUp,
            Function.update_of_ne hdialer] using hwait

theorem step (hm : s.Mutual) (hs : s.Sound) (h : s.Step s') : s'.Mutual := by
  cases h with
  | connect hello hdial => exact hm.connect hs hello hdial
  | accept hl hline => exact hm.accept hs hl hline.1
  | ignore hq hentry => exact absurd (hm.entry_head hs hq) hentry
  | answer msg hq _ _ _ hl hacc => exact hm.answer hs msg hq hl hacc
  | complete hl hawaiting hreply => exact hm.complete hs hl hawaiting hreply
  | dropped hl _ hreply ht hq => exact absurd (hm.queued _ hl hreply _ ht) hq
  | _ => exact { hm with }

end Mutual

end State

end Contacts
