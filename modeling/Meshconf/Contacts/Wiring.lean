import Meshconf.Contacts.Basic

/-! # The two ends of a connection

What holds of connections and queues, whatever the parties do with them: serial numbers
tell connections apart at each end, and the accepted ones wait in the order of theirs.
-/

namespace Contacts

variable {K M : Type*}

/-- Links, queues and numbers fit together. -/
structure Wired (next : K → ℕ) (queue : K → List (ℕ × K)) (links : List (Link K M)) : Prop where
  dialed : ∀ l ∈ links, l.dialerSerial < next l.dialer
  accepted : ∀ l ∈ links, ∀ t ∈ l.acceptorSerial, t < next l.acceptor
  unique : ∀ l ∈ links, ∀ l' ∈ links, l.dialer = l'.dialer → l.dialerSerial = l'.dialerSerial →
    l = l'
  uniqueAccepted : ∀ l ∈ links, ∀ l' ∈ links, l.acceptor = l'.acceptor → ∀ t ∈ l.acceptorSerial,
    t ∈ l'.acceptorSerial → l = l'
  apart : ∀ l ∈ links, ∀ l' ∈ links, l.dialer = l'.acceptor → l.dialerSerial ∉ l'.acceptorSerial
  fifo : ∀ l ∈ links, ∀ l' ∈ links, l.dialer = l'.dialer → l.acceptor = l'.acceptor →
    l.dialerSerial < l'.dialerSerial → ∀ t ∈ l.acceptorSerial, ∀ t' ∈ l'.acceptorSerial, t < t'
  queued : ∀ y, ∀ q ∈ queue y, q.1 < next y
  sorted : ∀ y, (queue y).Pairwise fun q q' => q.1 < q'.1
  remote : ∀ l ∈ links, ∀ q ∈ queue l.acceptor, q.1 ∈ l.acceptorSerial → l.dialer = q.2
  answered : ∀ l ∈ links, l.reply ≠ none →
    ∃ t ∈ l.acceptorSerial, ∀ q ∈ queue l.acceptor, t < q.1

namespace Wired

variable {next : K → ℕ} {queue : K → List (ℕ × K)} {links : List (Link K M)}

theorem init : Wired (fun _ : K => 0) (fun _ => []) ([] : List (Link K M)) := by
  constructor <;> simp

/-- Those behind the first connection of a queue have larger numbers. -/
theorem head_lt (h : Wired next queue links) {y x : K} {t : ℕ} (hq : (t, x) ∈ (queue y).head?)
    {q : ℕ × K} (hmem : q ∈ (queue y).tail) : t < q.1 := by
  have hsorted := h.sorted y
  obtain ⟨rest, hrest⟩ := List.head?_eq_some_iff.mp hq
  rw [hrest] at hsorted hmem
  exact List.rel_of_pairwise_cons hsorted hmem

/-- A party and a number tell one connection. -/
theorem eq_of_end (h : Wired next queue links) {l l' : Link K M} (hl : l ∈ links) (hl' : l' ∈ links)
    {x : K} {n : ℕ} (hend : l.DialedAs x n ∨ l.AcceptedAs x n)
    (hend' : l'.DialedAs x n ∨ l'.AcceptedAs x n) : l = l' := by
  rcases hend with ⟨rfl, rfl⟩ | ⟨rfl, ht⟩ <;> rcases hend' with ⟨hx, hn⟩ | ⟨hy, ht'⟩
  · exact h.unique l hl l' hl' hx.symm hn.symm
  · exact absurd ht' (h.apart l hl l' hl' hy.symm)
  · exact absurd ht (hn ▸ h.apart l' hl' l hl hx)
  · exact h.uniqueAccepted l hl l' hl' hy.symm n ht ht'

variable [DecidableEq K]

theorem lt_next_succ (x : K) {y : K} {t : ℕ} (h : t < next y) :
    t < Function.update next x (next x + 1) y := by
  rw [Function.update_apply]
  split
  · rename_i hy
    subst hy
    omega
  · exact h

theorem mem_push {x y : K} {q q' : ℕ × K}
    (h : q' ∈ Function.update queue y (queue y ++ [q]) x) : q' ∈ queue x ∨ x = y ∧ q' = q := by
  rw [Function.update_apply] at h
  split at h
  · rename_i hx
    subst hx
    rcases List.mem_append.mp h with hold | hnew
    · exact .inl hold
    · exact .inr ⟨rfl, List.mem_singleton.mp hnew⟩
  · exact .inl h

theorem mem_pop {x y : K} {q : ℕ × K} (h : q ∈ Function.update queue y (queue y).tail x) :
    q ∈ queue x := by
  rw [Function.update_apply] at h
  split at h
  · rename_i hx
    subst hx
    exact List.mem_of_mem_tail h
  · exact h

/-- A new connection, not accepted yet. -/
theorem connect (h : Wired next queue links) (x y : K) (hello : M) :
    Wired (Function.update next x (next x + 1)) queue
      (links ++ [{ dialer := x, dialerSerial := next x, acceptor := y, hello }]) where
  dialed l hl := by
    rcases mem_dialed hl with hl | rfl
    · exact lt_next_succ x (h.dialed l hl)
    · simp
  accepted l hl t ht := by
    rcases mem_dialed hl with hl | rfl
    · exact lt_next_succ x (h.accepted l hl t ht)
    · cases ht
  unique l hl l' hl' hx hs := by
    rcases mem_dialed hl with hl | rfl <;> rcases mem_dialed hl' with hl' | rfl
    · exact h.unique l hl l' hl' hx hs
    · have hlt := h.dialed l hl
      rw [hx, hs] at hlt
      exact (Nat.lt_irrefl _ hlt).elim
    · have hlt := h.dialed l' hl'
      rw [← hx, ← hs] at hlt
      exact (Nat.lt_irrefl _ hlt).elim
    · rfl
  uniqueAccepted l hl l' hl' hy t ht ht' := by
    rcases mem_dialed hl with hl | rfl <;> rcases mem_dialed hl' with hl' | rfl
    · exact h.uniqueAccepted l hl l' hl' hy t ht ht'
    · cases ht'
    · cases ht
    · rfl
  apart l hl l' hl' hx ht := by
    rcases mem_dialed hl' with hl' | rfl
    · rcases mem_dialed hl with hl | rfl
      · exact h.apart l hl l' hl' hx ht
      · have hlt := h.accepted l' hl' _ ht
        rw [← hx] at hlt
        exact (Nat.lt_irrefl _ hlt).elim
    · cases ht
  fifo l hl l' hl' hx hy hs t ht t' ht' := by
    rcases mem_dialed hl with hl | rfl
    · rcases mem_dialed hl' with hl' | rfl
      · exact h.fifo l hl l' hl' hx hy hs t ht t' ht'
      · cases ht'
    · cases ht
  queued z q hq := lt_next_succ x (h.queued z q hq)
  sorted := h.sorted
  remote l hl q hq hs := by
    rcases mem_dialed hl with hl | rfl
    · exact h.remote l hl q hq hs
    · cases hs
  answered l hl hr := by
    rcases mem_dialed hl with hl | rfl
    · exact h.answered l hl hr
    · exact absurd rfl hr

/-- A connection comes in behind those that wait already. -/
theorem push (h : Wired next queue links) (y x : K) :
    Wired (Function.update next y (next y + 1))
      (Function.update queue y (queue y ++ [(next y, x)])) links where
  dialed l hl := lt_next_succ y (h.dialed l hl)
  accepted l hl t ht := lt_next_succ y (h.accepted l hl t ht)
  unique := h.unique
  uniqueAccepted := h.uniqueAccepted
  apart := h.apart
  fifo := h.fifo
  queued z q hq := by
    rcases mem_push hq with hold | ⟨rfl, rfl⟩
    · exact lt_next_succ y (h.queued z q hold)
    · simp
  sorted z := by
    rw [Function.update_apply]
    split
    · refine List.pairwise_append.mpr ⟨h.sorted y, List.pairwise_singleton _ _, ?_⟩
      rintro q hq q' hq'
      rw [List.mem_singleton.mp hq']
      exact h.queued y q hq
    · exact h.sorted z
  remote l hl q hq hs := by
    rcases mem_push hq with hold | ⟨hy, rfl⟩
    · exact h.remote l hl q hold hs
    · have hlt := h.accepted l hl _ hs
      rw [hy] at hlt
      exact (Nat.lt_irrefl _ hlt).elim
  answered l hl hr := by
    obtain ⟨t, ht, hlt⟩ := h.answered l hl hr
    refine ⟨t, ht, fun q hq => ?_⟩
    rcases mem_push hq with hold | ⟨hy, rfl⟩
    · exact hlt q hold
    · rw [← hy]
      exact h.accepted l hl t ht

/-- The first connection of a queue has been handled. -/
theorem pop (h : Wired next queue links) (y : K) :
    Wired next (Function.update queue y (queue y).tail) links where
  dialed := h.dialed
  accepted := h.accepted
  unique := h.unique
  uniqueAccepted := h.uniqueAccepted
  apart := h.apart
  fifo := h.fifo
  queued z q hq := h.queued z q (mem_pop hq)
  sorted z := by
    rw [Function.update_apply]
    split
    · exact (h.sorted y).tail
    · exact h.sorted z
  remote l hl q hq hs := h.remote l hl q (mem_pop hq) hs
  answered l hl hr := by
    obtain ⟨t, ht, hlt⟩ := h.answered l hl hr
    exact ⟨t, ht, fun q hq => hlt q (mem_pop hq)⟩

/-- The number of an accepted connection is the new one, or was there before. -/
theorem mem_accept (h : Wired next queue links) {l l' : Link K M} (hl : l ∈ links)
    (hl' : l' ∈ links) {t t' : ℕ}
    (ht : t' ∈ (l'.accept l.dialer l.dialerSerial t).acceptorSerial) :
    l' = l ∧ t' = t ∨ t' ∈ l'.acceptorSerial := by
  rw [Link.acceptorSerial_accept] at ht
  split at ht
  · rename_i hd
    exact .inl ⟨h.unique l' hl' l hl hd.1 hd.2, (Option.mem_some_iff.mp ht).symm⟩
  · exact .inr ht

theorem mem_accept_of_mem (h : Wired next queue links) {l l' : Link K M} (hl : l ∈ links)
    (hnone : l.acceptorSerial = none) (hl' : l' ∈ links) {t t' : ℕ} (ht : t' ∈ l'.acceptorSerial) :
    t' ∈ (l'.accept l.dialer l.dialerSerial t).acceptorSerial := by
  rw [Link.acceptorSerial_accept]
  split
  · rename_i hd
    obtain rfl := h.unique l' hl' l hl hd.1 hd.2
    rw [hnone] at ht
    cases ht
  · exact ht

/-- A connection is accepted before all later ones of its dialer. -/
theorem accept (h : Wired next queue links) {l : Link K M} (hl : l ∈ links)
    (hnone : l.acceptorSerial = none)
    (hlater : ∀ l' ∈ links, l'.dialer = l.dialer → l'.acceptor = l.acceptor →
      l.dialerSerial < l'.dialerSerial → l'.acceptorSerial = none) :
    Wired (Function.update next l.acceptor (next l.acceptor + 1))
      (Function.update queue l.acceptor (queue l.acceptor ++ [(next l.acceptor, l.dialer)]))
      (links.map fun l' => l'.accept l.dialer l.dialerSerial (next l.acceptor)) where
  dialed := by
    rintro _ hm₁
    obtain ⟨l₁, hl₁, rfl⟩ := List.mem_map.mp hm₁
    simpa using (h.push l.acceptor l.dialer).dialed l₁ hl₁
  accepted := by
    rintro _ hm₁ t ht
    obtain ⟨l₁, hl₁, rfl⟩ := List.mem_map.mp hm₁
    rw [Link.acceptor_accept]
    rcases h.mem_accept hl hl₁ ht with ⟨rfl, rfl⟩ | hold
    · simp
    · exact lt_next_succ _ (h.accepted l₁ hl₁ t hold)
  unique := by
    rintro _ hm₁ _ hm₂ hx hs
    obtain ⟨l₁, hl₁, rfl⟩ := List.mem_map.mp hm₁
    obtain ⟨l₂, hl₂, rfl⟩ := List.mem_map.mp hm₂
    simp only [Link.dialer_accept, Link.dialerSerial_accept] at hx hs
    rw [h.unique l₁ hl₁ l₂ hl₂ hx hs]
  uniqueAccepted := by
    rintro _ hm₁ _ hm₂ hy t ht ht'
    obtain ⟨l₁, hl₁, rfl⟩ := List.mem_map.mp hm₁
    obtain ⟨l₂, hl₂, rfl⟩ := List.mem_map.mp hm₂
    simp only [Link.acceptor_accept] at hy
    rcases h.mem_accept hl hl₁ ht with ⟨rfl, rfl⟩ | hold <;>
      rcases h.mem_accept hl hl₂ ht' with ⟨rfl, htt⟩ | hold'
    · rfl
    · exact (Nat.lt_irrefl _ (hy ▸ h.accepted l₂ hl₂ _ hold')).elim
    · subst htt
      exact (Nat.lt_irrefl _ (hy ▸ h.accepted l₁ hl₁ _ hold)).elim
    · rw [h.uniqueAccepted l₁ hl₁ l₂ hl₂ hy t hold hold']
  apart := by
    rintro _ hm₁ _ hm₂ hx ht
    obtain ⟨l₁, hl₁, rfl⟩ := List.mem_map.mp hm₁
    obtain ⟨l₂, hl₂, rfl⟩ := List.mem_map.mp hm₂
    simp only [Link.dialer_accept, Link.acceptor_accept, Link.dialerSerial_accept] at hx ht
    rcases h.mem_accept hl hl₂ ht with ⟨rfl, htt⟩ | hold
    · have hlt := h.dialed l₁ hl₁
      rw [htt, hx] at hlt
      exact (Nat.lt_irrefl _ hlt).elim
    · exact h.apart l₁ hl₁ l₂ hl₂ hx hold
  fifo := by
    rintro _ hm₁ _ hm₂ hx hy hs t ht t' ht'
    obtain ⟨l₁, hl₁, rfl⟩ := List.mem_map.mp hm₁
    obtain ⟨l₂, hl₂, rfl⟩ := List.mem_map.mp hm₂
    simp only [Link.dialer_accept, Link.acceptor_accept, Link.dialerSerial_accept] at hx hy hs
    rcases h.mem_accept hl hl₂ ht' with ⟨rfl, rfl⟩ | hold'
    · rcases h.mem_accept hl hl₁ ht with ⟨rfl, -⟩ | hold
      · exact (Nat.lt_irrefl _ hs).elim
      · exact hy ▸ h.accepted l₁ hl₁ t hold
    · rcases h.mem_accept hl hl₁ ht with ⟨rfl, -⟩ | hold
      · rw [hlater l₂ hl₂ hx.symm hy.symm hs] at hold'
        cases hold'
      · exact h.fifo l₁ hl₁ l₂ hl₂ hx hy hs t hold t' hold'
  queued := (h.push l.acceptor l.dialer).queued
  sorted := (h.push l.acceptor l.dialer).sorted
  remote := by
    rintro _ hm₁ q hq ht
    obtain ⟨l₁, hl₁, rfl⟩ := List.mem_map.mp hm₁
    rw [Link.acceptor_accept] at hq
    rw [Link.dialer_accept]
    rcases h.mem_accept hl hl₁ ht with ⟨rfl, htq⟩ | hold
    · rcases mem_push hq with hq | ⟨-, rfl⟩
      · exact (Nat.lt_irrefl _ (htq ▸ h.queued _ q hq)).elim
      · rfl
    · exact (h.push l.acceptor l.dialer).remote l₁ hl₁ q hq hold
  answered := by
    rintro _ hm₁ hr
    obtain ⟨l₁, hl₁, rfl⟩ := List.mem_map.mp hm₁
    rw [Link.reply_accept] at hr
    rw [Link.acceptor_accept]
    obtain ⟨t, ht, hlt⟩ := (h.push l.acceptor l.dialer).answered l₁ hl₁ hr
    exact ⟨t, h.mem_accept_of_mem hl hnone hl₁ ht, hlt⟩

/-- The first connection of a queue is answered. -/
theorem answer (h : Wired next queue links) {y x : K} {t : ℕ} (hq : (t, x) ∈ (queue y).head?)
    (msg : M) :
    Wired next (Function.update queue y (queue y).tail)
      (links.map fun l => l.answer y t msg) where
  dialed := by
    rintro _ hm
    obtain ⟨l, hl, rfl⟩ := List.mem_map.mp hm
    simpa using h.dialed l hl
  accepted := by
    rintro _ hm
    obtain ⟨l, hl, rfl⟩ := List.mem_map.mp hm
    simpa using h.accepted l hl
  unique := by
    rintro _ hm₁ _ hm₂ hx hs
    obtain ⟨l₁, hl₁, rfl⟩ := List.mem_map.mp hm₁
    obtain ⟨l₂, hl₂, rfl⟩ := List.mem_map.mp hm₂
    simp only [Link.dialer_answer, Link.dialerSerial_answer] at hx hs
    rw [h.unique l₁ hl₁ l₂ hl₂ hx hs]
  uniqueAccepted := by
    rintro _ hm₁ _ hm₂ hy t ht ht'
    obtain ⟨l₁, hl₁, rfl⟩ := List.mem_map.mp hm₁
    obtain ⟨l₂, hl₂, rfl⟩ := List.mem_map.mp hm₂
    simp only [Link.acceptor_answer, Link.acceptorSerial_answer] at hy ht ht'
    rw [h.uniqueAccepted l₁ hl₁ l₂ hl₂ hy t ht ht']
  apart := by
    rintro _ hm₁ _ hm₂
    obtain ⟨l₁, hl₁, rfl⟩ := List.mem_map.mp hm₁
    obtain ⟨l₂, hl₂, rfl⟩ := List.mem_map.mp hm₂
    simpa using h.apart l₁ hl₁ l₂ hl₂
  fifo := by
    rintro _ hm₁ _ hm₂
    obtain ⟨l₁, hl₁, rfl⟩ := List.mem_map.mp hm₁
    obtain ⟨l₂, hl₂, rfl⟩ := List.mem_map.mp hm₂
    simpa using h.fifo l₁ hl₁ l₂ hl₂
  queued := (h.pop y).queued
  sorted := (h.pop y).sorted
  remote := by
    rintro _ hm q hq ht
    obtain ⟨l, hl, rfl⟩ := List.mem_map.mp hm
    rw [Link.acceptor_answer] at hq
    rw [Link.acceptorSerial_answer] at ht
    rw [Link.dialer_answer]
    exact (h.pop y).remote l hl q hq ht
  answered := by
    rintro _ hm hr
    obtain ⟨l, hl, rfl⟩ := List.mem_map.mp hm
    rw [Link.acceptor_answer, Link.acceptorSerial_answer]
    rw [Link.reply_answer] at hr
    split at hr
    · rename_i hacc
      obtain ⟨rfl, hserial⟩ := hacc
      refine ⟨t, hserial, fun q' hq' => h.head_lt hq ?_⟩
      simpa using hq'
    · exact (h.pop y).answered l hl hr

end Wired

namespace State

variable [LinearOrder K] {s s' : State K M}

def Wired (s : State K M) : Prop := Contacts.Wired s.next s.queue s.links

theorem Wired.step (hs : s.Wired) (h : s.Step s') : s'.Wired := by
  cases h with
  | connect hello => exact Contacts.Wired.connect hs _ _ hello
  | accept hl hline => exact Contacts.Wired.accept hs hl hline.1 hline.2
  | ignore => exact Contacts.Wired.pop hs _
  | answer msg hq => exact Contacts.Wired.answer hs hq msg
  | _ => exact hs

theorem Wired.fault (hs : s.Wired) (h : s.Fault s') : s'.Wired := by
  cases h with
  | stray x => exact Contacts.Wired.push hs _ x
  | refuse y => exact Contacts.Wired.pop hs y
  | _ => exact hs

end State

end Contacts
