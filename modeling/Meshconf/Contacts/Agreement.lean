import Meshconf.Contacts.Waiting

/-! # Both ends agree

Two parties may have had many connections with each other. The one with the smaller key
has its entry on the latest, the other one on the latest that it has answered, and the
entry of the first needs an answer. So they are on the same connection.
-/

namespace Contacts

variable {K M : Type*}

namespace State

variable {s s' : State K M} {x y a b : K} {n t : ℕ}

/-- The connection at the head of a queue has no answer yet, and comes from its dialer. -/
theorem head_unanswered (hw : s.Wired) (hq : (t, x) ∈ (s.queue y).head?) {l : Link K M}
    (hl : l ∈ s.links) (hacc : l.AcceptedAs y t) : l.dialer = x ∧ l.reply = none := by
  obtain ⟨rfl, ht⟩ := hacc
  have hmem := List.mem_of_mem_head? hq
  refine ⟨hw.remote l hl _ hmem ht, ?_⟩
  by_contra hr
  obtain ⟨t', ht', hlt⟩ := hw.answered l hl hr
  obtain rfl : t = t' := Option.mem_unique ht ht'
  exact Nat.lt_irrefl _ (hlt _ hmem)

variable [LinearOrder K]

theorem entry_enter :
    (s.enter x y n).entry a b = if a = x ∧ b = y then some n else s.entry a b := by
  by_cases ha : a = x
  · subst ha
    by_cases hb : b = y <;> simp [enter, hb]
  · simp [enter, ha]

/-- What entries tell about the connections between two parties. -/
structure Agreeing (s : State K M) : Prop where
  entry : ∀ x y t, s.entry x y = some t → ∃ l ∈ s.links, l.Joins x t y ∧ l.reply ≠ none
  awaiting : ∀ l ∈ s.links, s.awaiting l.dialer = some l.dialerSerial →
    s.entry l.dialer l.acceptor = none
  dialing : ∀ x y, s.dialing x = some y → s.entry x y = none
  latest : ∀ l ∈ s.links, l.dialer < l.acceptor → ∀ t ∈ s.entry l.dialer l.acceptor,
    l.dialerSerial ≤ t ∧ ∃ l' ∈ s.links, l'.DialedAs l.dialer t
  answered : ∀ l ∈ s.links, l.dialer < l.acceptor → l.reply ≠ none →
    ∀ t ∈ s.entry l.acceptor l.dialer,
      (∃ t' ∈ l.acceptorSerial, t' ≤ t) ∧ ∃ l' ∈ s.links, l'.AcceptedAs l.acceptor t

namespace Agreeing

theorem init : ({} : State K M).Agreeing := by
  constructor <;> simp

theorem hangUp (hs : s.Agreeing) (x : K) : (s.hangUp x).Agreeing :=
  { hs with
    dialing := by
      rintro z w hz
      by_cases hzx : z = x
      · simp [State.hangUp, hzx] at hz
      · simp only [State.hangUp, Function.update_of_ne hzx] at hz
        exact hs.dialing z w hz }

theorem giveUp (hs : s.Agreeing) (x : K) : (s.giveUp x).Agreeing :=
  { hs with awaiting := fun l hl h => hs.awaiting l hl (Ordered.giveUp_eq_some h) }

theorem forget (hs : s.Agreeing) {e : K → Option ℕ} (he : ∀ y, e y = none ∨ e y = s.entry x y) :
    (s.forget x e).Agreeing := by
  have hsub : ∀ a b, (s.forget x e).entry a b = none ∨ (s.forget x e).entry a b = s.entry a b := by
    intro a b
    by_cases ha : a = x
    · subst ha
      simpa [State.forget] using he b
    · simp [State.forget, ha]
  have hsome : ∀ a b t, (s.forget x e).entry a b = some t → s.entry a b = some t := by
    intro a b t h
    rcases hsub a b with hnone | hsame
    · cases hnone.symm.trans h
    · exact hsame ▸ h
  have hnone : ∀ a b, s.entry a b = none → (s.forget x e).entry a b = none := by
    intro a b h
    rcases hsub a b with hnone | hsame
    · exact hnone
    · exact hsame.trans h
  constructor
  · exact fun a b t h => hs.entry a b t (hsome a b t h)
  · exact fun l hl h => hnone _ _ (hs.awaiting l hl h)
  · exact fun a b h => hnone a b (hs.dialing a b h)
  · exact fun l hl hlt t ht => hs.latest l hl hlt t (hsome _ _ t ht)
  · exact fun l hl hlt hr t ht => hs.answered l hl hlt hr t (hsome _ _ t ht)

/-- A ticket's holder has no entry yet. -/
theorem join (hs : s.Agreeing) (ho : s.Ordered) (hw : s.Wired) (hx : x ∉ s.started) :
    (s.join x y).Agreeing :=
  { hs with
    dialing := by
      rintro z w hz
      by_cases hzx : z = x
      · subst hzx
        cases hentry : s.entry z w with
        | none => exact hentry
        | some t =>
          have hzero := (ho.unstarted z hx).2.2
          obtain ⟨l, hl, ⟨⟨rfl, rfl⟩, -⟩ | ⟨⟨rfl, ht⟩, -⟩, -⟩ := hs.entry z w t hentry
          · have hlt := hw.dialed l hl
            omega
          · have hlt := hw.accepted l hl t ht
            omega
      · simp only [State.join, Function.update_of_ne hzx] at hz
        exact hs.dialing z w hz }

theorem call (hs : s.Agreeing) (hentry : s.entry x y = none) : (s.call x y).Agreeing :=
  { hs with
    dialing := by
      rintro z w hz
      by_cases hzx : z = x
      · subst hzx
        obtain rfl : y = w := by simpa [State.call] using hz
        exact hentry
      · simp only [State.call, Function.update_of_ne hzx] at hz
        exact hs.dialing z w hz }

theorem connect (hs : s.Agreeing) (hw : s.Wired) (hello : M) (hdial : s.dialing x = some y) :
    (s.connect x y hello).Agreeing where
  entry a b t h := by
    obtain ⟨l, hl, hl'⟩ := hs.entry a b t h
    exact ⟨l, List.mem_append_left _ hl, hl'⟩
  awaiting l hl h := by
    rcases mem_dialed hl with hl | rfl
    · by_cases hlx : l.dialer = x
      · obtain hserial : s.next x = l.dialerSerial := by simpa [State.connect, hlx] using h
        have hlt := hw.dialed l hl
        rw [hlx] at hlt
        omega
      · simp only [State.connect, Function.update_of_ne hlx] at h
        exact hs.awaiting l hl h
    · exact hs.dialing x y hdial
  dialing z w hz := (hs.hangUp x).dialing z w hz
  latest l hl hlt t ht := by
    rcases mem_dialed hl with hl | rfl
    · obtain ⟨hle, l', hl', hdialed⟩ := hs.latest l hl hlt t ht
      exact ⟨hle, l', List.mem_append_left _ hl', hdialed⟩
    · cases (hs.dialing x y hdial).symm.trans ht
  answered l hl hlt hr t ht := by
    rcases mem_dialed hl with hl | rfl
    · obtain ⟨hle, l', hl', hacc⟩ := hs.answered l hl hlt hr t ht
      exact ⟨hle, l', List.mem_append_left _ hl', hacc⟩
    · exact absurd rfl hr

theorem accept (hs : s.Agreeing) (hw : s.Wired) {l : Link K M} (hl : l ∈ s.links)
    (hnone : l.acceptorSerial = none) : (s.accept l).Agreeing := by
  have hkeep : ∀ l₁ ∈ s.links, ∀ t ∈ l₁.acceptorSerial,
      t ∈ (l₁.accept l.dialer l.dialerSerial (s.next l.acceptor)).acceptorSerial :=
    fun l₁ hl₁ t ht => Contacts.Wired.mem_accept_of_mem hw hl hnone hl₁ ht
  constructor
  · rintro a b t h
    obtain ⟨l₁, hl₁, hjoins, hreply⟩ := hs.entry a b t h
    refine ⟨_, List.mem_map_of_mem hl₁, ?_, by simpa using hreply⟩
    rcases hjoins with ⟨hdialed, hb⟩ | ⟨⟨ha, ht⟩, hb⟩
    · exact .inl ⟨by simpa [Link.DialedAs] using hdialed, by simpa using hb⟩
    · exact .inr ⟨⟨by simpa using ha, hkeep l₁ hl₁ t ht⟩, by simpa using hb⟩
  · rintro _ hm h
    obtain ⟨l₁, hl₁, rfl⟩ := List.mem_map.mp hm
    simp only [Link.dialer_accept, Link.dialerSerial_accept, Link.acceptor_accept] at h ⊢
    exact hs.awaiting l₁ hl₁ h
  · exact hs.dialing
  · rintro _ hm hlt t ht
    obtain ⟨l₁, hl₁, rfl⟩ := List.mem_map.mp hm
    simp only [Link.dialer_accept, Link.dialerSerial_accept, Link.acceptor_accept] at hlt ht ⊢
    obtain ⟨hle, l₂, hl₂, hdialed⟩ := hs.latest l₁ hl₁ hlt t ht
    exact ⟨hle, _, List.mem_map_of_mem hl₂, by simpa [Link.DialedAs] using hdialed⟩
  · rintro _ hm hlt hr t ht
    obtain ⟨l₁, hl₁, rfl⟩ := List.mem_map.mp hm
    simp only [Link.dialer_accept, Link.acceptor_accept, Link.reply_accept] at hlt hr ht ⊢
    obtain ⟨⟨t', ht', hle⟩, l₂, hl₂, hacc, hserial⟩ := hs.answered l₁ hl₁ hlt hr t ht
    refine ⟨⟨t', hkeep l₁ hl₁ t' ht', hle⟩, _, List.mem_map_of_mem hl₂, ?_⟩
    exact ⟨by simpa using hacc, hkeep l₂ hl₂ t hserial⟩

theorem answer (hs : s.Agreeing) (ho : s.Ordered) (hw : s.Wired) {l : Link K M} (msg : M)
    (hq : (t, x) ∈ (s.queue y).head?) (hdialing : s.dialing y = none)
    (hawaiting : s.awaiting y = none) (hl : l ∈ s.links) (hacc : l.AcceptedAs y t) :
    (s.answer y x t msg).Agreeing := by
  obtain ⟨hdialer, hreply⟩ := head_unanswered hw hq hl hacc
  have hentry : (s.answer y x t msg).entry = (s.enter y x t).entry := rfl
  constructor
  · rintro a b t' h
    rw [hentry, entry_enter] at h
    split at h
    · rename_i hab
      obtain ⟨rfl, rfl⟩ := hab
      obtain rfl := Option.some.inj h
      refine ⟨_, List.mem_map_of_mem hl, .inr ⟨?_, by simpa using hdialer⟩, ?_⟩
      · simpa [Link.AcceptedAs] using hacc
      · simp [Link.reply_answer, hacc]
    · obtain ⟨l₁, hl₁, hjoins, hr⟩ := hs.entry a b t' h
      refine ⟨_, List.mem_map_of_mem hl₁, ?_, l₁.reply_answer_ne_none _ _ _ hr⟩
      simpa [Link.Joins, Link.DialedAs, Link.AcceptedAs] using hjoins
  · rintro _ hm h
    obtain ⟨l₁, hl₁, rfl⟩ := List.mem_map.mp hm
    simp only [Link.dialer_answer, Link.dialerSerial_answer, Link.acceptor_answer] at h ⊢
    have hne : l₁.dialer ≠ y := by
      rintro rfl
      cases hawaiting.symm.trans h
    rw [hentry, entry_enter, if_neg fun hab => hne hab.1]
    exact hs.awaiting l₁ hl₁ h
  · rintro a b h
    have hne : a ≠ y := by
      rintro rfl
      cases hdialing.symm.trans h
    rw [hentry, entry_enter, if_neg fun hab => hne hab.1]
    exact hs.dialing a b h
  · rintro _ hm hlt t' ht'
    obtain ⟨l₁, hl₁, rfl⟩ := List.mem_map.mp hm
    simp only [Link.dialer_answer, Link.dialerSerial_answer, Link.acceptor_answer] at hlt ht' ⊢
    rw [hentry, entry_enter] at ht'
    split at ht'
    · -- A dial of `y` to `x` would have found `x` accepting, while `x` still waits for its ticket.
      rename_i hab
      obtain ⟨hy, hx⟩ := hab
      rw [hy, hx] at hlt
      have hjoined : s.joined x := ho.accepting x (hx ▸ ho.acceptor l₁ hl₁)
      rcases ho.link l hl with hup | ⟨-, -, hfresh⟩
      · have hlt' := hup.2.1
        rw [hdialer, hacc.1] at hlt'
        exact absurd hlt' hlt.not_gt
      · exact absurd hreply (hfresh (hdialer ▸ hjoined))
    · obtain ⟨hle, l₂, hl₂, hdialed⟩ := hs.latest l₁ hl₁ hlt t' ht'
      exact ⟨hle, _, List.mem_map_of_mem hl₂, by simpa [Link.DialedAs] using hdialed⟩
  · rintro _ hm hlt hr t' ht'
    obtain ⟨l₁, hl₁, rfl⟩ := List.mem_map.mp hm
    simp only [Link.dialer_answer, Link.acceptor_answer, Link.acceptorSerial_answer] at hlt ht' ⊢
    rw [Link.reply_answer] at hr
    rw [hentry, entry_enter] at ht'
    split at ht'
    · rename_i hab
      obtain rfl := Option.mem_some_iff.mp ht'
      refine ⟨?_, _, List.mem_map_of_mem hl, ?_⟩
      · split at hr
        · rename_i hacc₁
          exact ⟨t, hacc₁.2, Nat.le_refl t⟩
        · obtain ⟨t₁, ht₁, hlt₁⟩ := hw.answered l₁ hl₁ hr
          exact ⟨t₁, ht₁, Nat.le_of_lt (hlt₁ (t, x) (hab.1 ▸ List.mem_of_mem_head? hq))⟩
      · rw [hab.1]
        simpa [Link.AcceptedAs] using hacc
    · rename_i hab
      split at hr
      · rename_i hacc₁
        obtain rfl := hw.uniqueAccepted l₁ hl₁ l hl (hacc₁.1.trans hacc.1.symm) t hacc₁.2 hacc.2
        exact absurd ⟨hacc.1, hdialer⟩ hab
      · obtain ⟨hle, l₂, hl₂, hacc₂⟩ := hs.answered l₁ hl₁ hlt hr t' ht'
        exact ⟨hle, _, List.mem_map_of_mem hl₂, by simpa [Link.AcceptedAs] using hacc₂⟩

theorem complete (hs : s.Agreeing) (ho : s.Ordered) (hw : s.Wired) {l : Link K M}
    (hl : l ∈ s.links) (hawaiting : s.awaiting l.dialer = some l.dialerSerial)
    (hreply : l.reply ≠ none) : (s.complete l.dialer l.acceptor l.dialerSerial).Agreeing := by
  have hentry : (s.complete l.dialer l.acceptor l.dialerSerial).entry =
      (s.enter l.dialer l.acceptor l.dialerSerial).entry := rfl
  constructor
  · rintro a b t h
    rw [hentry, entry_enter] at h
    split at h
    · rename_i hab
      obtain ⟨rfl, rfl⟩ := hab
      obtain rfl := Option.some.inj h
      exact ⟨l, hl, .inl ⟨⟨rfl, rfl⟩, rfl⟩, hreply⟩
    · exact hs.entry a b t h
  · rintro l₁ hl₁ h
    have hne : l₁.dialer ≠ l.dialer := by
      intro hx
      simp [State.complete, State.enter, State.giveUp, hx] at h
    rw [hentry, entry_enter, if_neg fun hab => hne hab.1]
    exact hs.awaiting l₁ hl₁ (Ordered.giveUp_eq_some h)
  · rintro a b h
    have hne : a ≠ l.dialer := by
      rintro rfl
      cases (ho.dialing _ b h).1.symm.trans hawaiting
    rw [hentry, entry_enter, if_neg fun hab => hne hab.1]
    exact hs.dialing a b h
  · rintro l₁ hl₁ hlt t ht
    rw [hentry, entry_enter] at ht
    split at ht
    · rename_i hab
      obtain rfl := Option.mem_some_iff.mp ht
      rw [hab.1]
      exact ⟨ho.latest l₁ hl₁ _ (hab.1 ▸ hawaiting), l, hl, rfl, rfl⟩
    · exact hs.latest l₁ hl₁ hlt t ht
  · rintro l₁ hl₁ hlt hr t ht
    rw [hentry, entry_enter] at ht
    split at ht
    · -- Only a ticket leads downwards, and nobody is accepted before it is redeemed.
      rename_i hab
      rw [hab.1, hab.2] at hlt
      have hjoined : s.joined l.dialer := ho.accepting _ (hab.1 ▸ ho.acceptor l₁ hl₁)
      obtain ⟨l₂, hl₂, ⟨hx, hserial⟩, hup⟩ := ho.awaiting _ _ hawaiting
      obtain rfl := hw.unique l₂ hl₂ l hl hx hserial
      exact absurd (hup hjoined).2.1 hlt.not_gt
    · exact hs.answered l₁ hl₁ hlt hr t ht

theorem step (hs : s.Agreeing) (ho : s.Ordered) (hw : s.Wired) (h : s.Step s') : s'.Agreeing := by
  cases h with
  | found hx => exact { hs with }
  | join hx hy => exact hs.join ho hw hx
  | call _ hentry _ => exact hs.call hentry
  | connect hello hdial hacc => exact hs.connect hw hello hdial
  | accept hl hline => exact hs.accept hw hl hline.1
  | ignore => exact { hs with }
  | answer msg hq _ hdialing hawaiting hl hacc =>
    exact hs.answer ho hw msg hq hdialing hawaiting hl hacc
  | complete hl hawaiting hreply => exact hs.complete ho hw hl hawaiting hreply
  | dropped => exact hs.giveUp _
  | settle hx => exact { hs with }

theorem fault (hs : s.Agreeing) (h : s.Fault s') : s'.Agreeing := by
  cases h with
  | hangUp x => exact hs.hangUp x
  | giveUp x => exact hs.giveUp x
  | stray x hy => exact { hs with }
  | refuse => exact { hs with }
  | forget he => exact hs.forget he

/-- The entries of two parties for each other are the two ends of one connection. -/
theorem agree (hs : s.Agreeing) (ho : s.Ordered) (hw : s.Wired) {n' : ℕ} (hxy : x < y)
    (hx : s.entry x y = some n) (hy : s.entry y x = some n') :
    ∃ l ∈ s.links, l.Joins x n y ∧ l.Joins y n' x := by
  obtain ⟨l, hl, hjoins, hreply⟩ := hs.entry x y n hx
  obtain ⟨l', hl', hjoins', hreply'⟩ := hs.entry y x n' hy
  suffices h : l = l' by
    subst h
    exact ⟨l, hl, hjoins, hjoins'⟩
  -- What is dialled and what is accepted differ, so each end tells who has dialled.
  rcases hjoins with ⟨hd, rfl⟩ | ⟨ha, rfl⟩ <;> rcases hjoins' with ⟨hd', hx'⟩ | ⟨ha', hx'⟩
  · obtain ⟨rfl, rfl⟩ := hd
    obtain ⟨-, l₂, hl₂, hacc⟩ := hs.answered l hl hxy hreply n' hy
    exact absurd hacc.2 (hd'.2 ▸ hw.apart l' hl' l₂ hl₂ (hd'.1.trans hacc.1.symm))
  · obtain ⟨rfl, rfl⟩ := hd
    obtain ⟨⟨t, ht, hle⟩, -⟩ := hs.answered l hl hxy hreply n' hy
    have hlast := (hs.latest l' hl' (by rwa [hx', ha'.1]) l.dialerSerial
      (by rwa [hx', ha'.1])).1
    rcases Nat.lt_or_eq_of_le hlast with hlt | heq
    · have hbefore := hw.fifo l' hl' l hl hx' ha'.1 hlt n' ha'.2 t ht
      omega
    · exact (hw.unique l' hl' l hl hx' heq).symm
  · have hzero : ∀ l₁ ∈ s.links, l₁.dialer = l.dialer → l₁.acceptor = x → l₁.dialerSerial = 0 := by
      rintro l₁ hl₁ hx₁ ha₁
      rcases ho.link l₁ hl₁ with hup | ⟨hzero, -, -⟩
      · have hlt := hup.2.1
        rw [hx₁, ha₁] at hlt
        exact absurd hlt hxy.not_gt
      · exact hzero
    exact hw.unique l hl l' hl' hd'.1.symm
      ((hzero l hl rfl ha.1).trans (hzero l' hl' hd'.1 hx').symm)
  · obtain ⟨-, l₂, hl₂, hdialed⟩ := hs.latest l' hl' (by rwa [hx', ha'.1]) n (by rwa [hx', ha'.1])
    exact absurd ha.2 (hdialed.2 ▸ hw.apart l₂ hl₂ l hl ((hdialed.1.trans hx').trans ha.1.symm))

end Agreeing

/-- What holds whatever happens. -/
structure Sound (s : State K M) : Prop where
  wired : s.Wired
  ordered : s.Ordered
  agreeing : s.Agreeing

theorem Sound.init : ({} : State K M).Sound := ⟨Contacts.Wired.init, .init, .init⟩

theorem Sound.step (hs : s.Sound) (h : s.Step s') : s'.Sound :=
  ⟨hs.wired.step h, hs.ordered.step hs.wired h, hs.agreeing.step hs.ordered hs.wired h⟩

theorem Sound.fault (hs : s.Sound) (h : s.Fault s') : s'.Sound :=
  ⟨hs.wired.fault h, hs.ordered.fault h, hs.agreeing.fault h⟩

theorem Sound.move (hs : s.Sound) (h : s.Move s') : s'.Sound := by
  rcases h with rfl | h | h
  · exact hs
  · exact hs.step h
  · exact hs.fault h

theorem Sound.agree (hs : s.Sound) {n' : ℕ} (hxy : x ≠ y) (hx : s.entry x y = some n)
    (hy : s.entry y x = some n') : ∃ l ∈ s.links, l.Joins x n y ∧ l.Joins y n' x := by
  rcases lt_or_gt_of_ne hxy with hlt | hlt
  · exact hs.agreeing.agree hs.ordered hs.wired hlt hx hy
  · obtain ⟨l, hl, hjoins, hjoins'⟩ := hs.agreeing.agree hs.ordered hs.wired hlt hy hx
    exact ⟨l, hl, hjoins', hjoins⟩

end State

end Contacts
