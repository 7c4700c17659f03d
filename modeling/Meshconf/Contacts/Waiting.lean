import Mathlib.Logic.Relation
import Meshconf.Contacts.Wiring

/-! # Who waits for whom

A party waits for the one that it dials, and then for its answer. The parties that are
not known yet wait for older ones or for known ones, and these wait for larger keys.
Hence no parties wait for each other.
-/

namespace Contacts

variable {K M : Type*}

namespace State

/-! ## What a party is, it remains -/

/-- Nothing is taken back that others rely on. -/
structure Grows (s s' : State K M) : Prop where
  started : ∃ new, s'.started = s.started ++ new
  joined : ∀ x, s.joined x → s'.joined x
  accepting : ∀ x, s.accepting x → s'.accepting x
  links : ∀ l ∈ s.links, ∃ l' ∈ s'.links, l'.dialer = l.dialer ∧ l'.dialerSerial = l.dialerSerial ∧
    l'.acceptor = l.acceptor ∧ (l.reply ≠ none → l'.reply ≠ none)

variable {s s' : State K M} {x y z : K}

theorem grows_of_links (hstarted : s'.started = s.started) (hjoined : s'.joined = s.joined)
    (haccepting : s'.accepting = s.accepting) (hlinks : s'.links = s.links) : s.Grows s' where
  started := ⟨[], by rw [hstarted, List.append_nil]⟩
  joined x hx := by rwa [hjoined]
  accepting x hx := by rwa [haccepting]
  links l hl := ⟨l, by rwa [hlinks], rfl, rfl, rfl, id⟩

theorem Grows.known (h : s.Grows s') (hy : s.Known y) : s'.Known y := by
  rcases hy with hy | ⟨l, hl, rfl, hr⟩
  · exact .inl (h.joined y hy)
  · obtain ⟨l', hl', hx, -, -, hr'⟩ := h.links l hl
    exact .inr ⟨l', hl', hx, hr' hr⟩

variable [LinearOrder K]

theorem Grows.upward (h : s.Grows s') (hxy : s.Upward x y) : s'.Upward x y :=
  ⟨h.joined x hxy.1, hxy.2.1, h.known hxy.2.2⟩

theorem Grows.younger (h : s.Grows s') (hxy : s.Younger x y) : s'.Younger x y := by
  obtain ⟨new, hnew⟩ := h.started
  obtain ⟨hx, hy, hlt⟩ := hxy
  refine ⟨?_, ?_, ?_⟩
  · exact hnew ▸ List.mem_append_left _ hx
  · exact hnew ▸ List.mem_append_left _ hy
  · rwa [hnew, List.idxOf_append_of_mem hx, List.idxOf_append_of_mem hy]

theorem update_true {f : K → Bool} (x : K) (h : f y = true) :
    Function.update f x true y = true := by
  rw [Function.update_apply]
  split
  · rfl
  · exact h

theorem Step.grows (h : s.Step s') : s.Grows s' := by
  cases h with
  | found hx =>
    exact ⟨⟨_, rfl⟩, fun z hz => update_true _ hz, fun z hz => update_true _ hz,
      fun l hl => ⟨l, hl, rfl, rfl, rfl, id⟩⟩
  | join hx hy =>
    exact ⟨⟨_, rfl⟩, fun z hz => hz, fun z hz => hz, fun l hl => ⟨l, hl, rfl, rfl, rfl, id⟩⟩
  | connect hello hdial hacc =>
    exact ⟨⟨[], (List.append_nil _).symm⟩, fun z hz => hz, fun z hz => hz,
      fun l hl => ⟨l, List.mem_append_left _ hl, rfl, rfl, rfl, id⟩⟩
  | accept hl =>
    refine ⟨⟨[], (List.append_nil _).symm⟩, fun z hz => hz, fun z hz => hz, fun l hl => ?_⟩
    exact ⟨_, List.mem_map_of_mem hl, by simp⟩
  | answer msg hq =>
    refine ⟨⟨[], (List.append_nil _).symm⟩, fun z hz => hz, fun z hz => hz, fun l hl => ?_⟩
    exact ⟨_, List.mem_map_of_mem hl, by simp, by simp, by simp, l.reply_answer_ne_none _ _ _⟩
  | complete hl =>
    exact ⟨⟨[], (List.append_nil _).symm⟩, fun z hz => update_true _ hz, fun z hz => hz,
      fun l hl => ⟨l, hl, rfl, rfl, rfl, id⟩⟩
  | settle hx =>
    exact ⟨⟨[], (List.append_nil _).symm⟩, fun z hz => hz, fun z hz => update_true _ hz,
      fun l hl => ⟨l, hl, rfl, rfl, rfl, id⟩⟩
  | _ => exact grows_of_links rfl rfl rfl rfl

theorem Fault.grows (h : s.Fault s') : s.Grows s' := by
  cases h <;> exact grows_of_links rfl rfl rfl rfl

/-- A step, a fault, or something that concerns no party. -/
def Move (s s' : State K M) : Prop := s' = s ∨ s.Step s' ∨ s.Fault s'

theorem Move.grows (h : s.Move s') : s.Grows s' := by
  rcases h with rfl | h | h
  · exact grows_of_links rfl rfl rfl rfl
  · exact h.grows
  · exact h.grows

/-! ## The order of dials -/

/-- Dials are made upwards, or with a ticket before anything else. -/
structure Ordered (s : State K M) : Prop where
  unstarted : ∀ x ∉ s.started, s.joined x = false ∧ s.awaiting x = none ∧ s.next x = 0
  accepting : ∀ x, s.accepting x → s.joined x
  acceptor : ∀ l ∈ s.links, s.accepting l.acceptor
  link : ∀ l ∈ s.links, s.Upward l.dialer l.acceptor ∨
    l.dialerSerial = 0 ∧ s.Younger l.dialer l.acceptor ∧ (s.joined l.dialer → l.reply ≠ none)
  dialing : ∀ x y, s.dialing x = some y → s.awaiting x = none ∧
    (s.Upward x y ∨ s.joined x = false ∧ s.next x = 0 ∧ s.Younger x y)
  awaiting : ∀ x n, s.awaiting x = some n →
    ∃ l ∈ s.links, l.DialedAs x n ∧ (s.joined x → s.Upward x l.acceptor)
  latest : ∀ l ∈ s.links, ∀ n ∈ s.awaiting l.dialer, l.dialerSerial ≤ n

namespace Ordered

theorem init : ({} : State K M).Ordered := by
  constructor <;> simp

theorem mem_started (hs : s.Ordered) (hx : s.joined x) : x ∈ s.started := by
  by_contra hmem
  rw [(hs.unstarted x hmem).1] at hx
  cases hx

theorem found (hs : s.Ordered) (hx : x ∉ s.started) (h : s.Grows (s.found x)) :
    (s.found x).Ordered where
  unstarted z hz := by
    obtain ⟨hz, hzx⟩ : z ∉ s.started ∧ z ≠ x := by simpa [State.found] using hz
    simp only [State.found, Function.update_of_ne hzx]
    exact hs.unstarted z hz
  accepting z hz := by
    by_cases hzx : z = x
    · simp [State.found, hzx]
    · simp only [State.found, Function.update_of_ne hzx] at hz ⊢
      exact hs.accepting z hz
  acceptor l hl := h.accepting _ (hs.acceptor l hl)
  link l hl := by
    rcases hs.link l hl with hup | ⟨hzero, hyounger, hreply⟩
    · exact .inl (h.upward hup)
    · refine .inr ⟨hzero, h.younger hyounger, fun hj => hreply ?_⟩
      have hne : l.dialer ≠ x := fun hlx => hx (hlx ▸ hyounger.1)
      simpa only [State.found, Function.update_of_ne hne] using hj
  dialing z y hz := by
    obtain ⟨hawaiting, hup | ⟨hjoined, hnext, hyounger⟩⟩ := hs.dialing z y hz
    · exact ⟨hawaiting, .inl (h.upward hup)⟩
    · refine ⟨hawaiting, .inr ⟨?_, hnext, h.younger hyounger⟩⟩
      have hne : z ≠ x := fun hzx => hx (hzx ▸ hyounger.1)
      simpa only [State.found, Function.update_of_ne hne] using hjoined
  awaiting z n hz := by
    obtain ⟨l, hl, hdialed, hup⟩ := hs.awaiting z n hz
    refine ⟨l, hl, hdialed, fun hj => h.upward (hup ?_)⟩
    have hne : z ≠ x := by
      rintro rfl
      cases (hs.unstarted z hx).2.1.symm.trans hz
    simpa only [State.found, Function.update_of_ne hne] using hj
  latest := hs.latest

theorem join (hs : s.Ordered) (hx : x ∉ s.started) (hy : y ∈ s.started)
    (h : s.Grows (s.join x y)) : (s.join x y).Ordered where
  unstarted z hz := hs.unstarted z fun hmem => hz (List.mem_append_left _ hmem)
  accepting := hs.accepting
  acceptor := hs.acceptor
  link l hl := by
    apply (hs.link l hl).imp h.upward
    rintro ⟨hzero, hyounger, hreply⟩
    exact ⟨hzero, h.younger hyounger, hreply⟩
  dialing z w hz := by
    by_cases hzx : z = x
    · subst hzx
      obtain rfl : y = w := by simpa [State.join] using hz
      obtain ⟨hjoined, hawaiting, hnext⟩ := hs.unstarted z hx
      refine ⟨hawaiting, .inr ⟨hjoined, hnext, ?_, ?_, ?_⟩⟩
      · simp [State.join]
      · simp [State.join, hy]
      · simp only [State.join]
        rw [List.idxOf_append_of_mem hy, List.idxOf_append_of_notMem hx]
        exact Nat.lt_add_right _ (List.idxOf_lt_length_of_mem hy)
    · simp only [State.join, Function.update_of_ne hzx] at hz
      obtain ⟨hawaiting, hdial⟩ := hs.dialing z w hz
      refine ⟨hawaiting, hdial.imp h.upward ?_⟩
      rintro ⟨hjoined, hnext, hyounger⟩
      exact ⟨hjoined, hnext, h.younger hyounger⟩
  awaiting z n hz := by
    obtain ⟨l, hl, hdialed, hup⟩ := hs.awaiting z n hz
    exact ⟨l, hl, hdialed, fun hj => h.upward (hup hj)⟩
  latest := hs.latest

theorem call (hs : s.Ordered) (hawaiting : s.awaiting x = none) (hup : s.Upward x y) :
    (s.call x y).Ordered :=
  { hs with
    dialing := by
      rintro z w hz
      by_cases hzx : z = x
      · subst hzx
        obtain rfl : y = w := by simpa [State.call] using hz
        exact ⟨hawaiting, .inl hup⟩
      · simp only [State.call, Function.update_of_ne hzx] at hz
        exact hs.dialing z w hz }

theorem hangUp (hs : s.Ordered) (x : K) : (s.hangUp x).Ordered :=
  { hs with
    dialing := by
      rintro z w hz
      by_cases hzx : z = x
      · simp [State.hangUp, hzx] at hz
      · simp only [State.hangUp, Function.update_of_ne hzx] at hz
        exact hs.dialing z w hz }

theorem giveUp_eq_some {n : ℕ} (h : (s.giveUp x).awaiting z = some n) : s.awaiting z = some n := by
  by_cases hzx : z = x
  · simp [State.giveUp, hzx] at h
  · simpa only [State.giveUp, Function.update_of_ne hzx] using h

theorem giveUp_eq_none (h : s.awaiting z = none) : (s.giveUp x).awaiting z = none := by
  by_cases hzx : z = x
  · simp [State.giveUp, hzx]
  · simpa only [State.giveUp, Function.update_of_ne hzx] using h

theorem giveUp (hs : s.Ordered) (x : K) : (s.giveUp x).Ordered where
  unstarted z hz := by
    obtain ⟨hjoined, hawaiting, hnext⟩ := hs.unstarted z hz
    exact ⟨hjoined, giveUp_eq_none hawaiting, hnext⟩
  accepting := hs.accepting
  acceptor := hs.acceptor
  link := hs.link
  dialing z y hz := by
    obtain ⟨hawaiting, hdial⟩ := hs.dialing z y hz
    exact ⟨giveUp_eq_none hawaiting, hdial⟩
  awaiting z n hz := hs.awaiting z n (giveUp_eq_some hz)
  latest l hl n hn := hs.latest l hl n (giveUp_eq_some hn)

theorem settle (hs : s.Ordered) (hx : s.joined x) : (s.settle x).Ordered where
  unstarted := hs.unstarted
  accepting z hz := by
    by_cases hzx : z = x
    · exact hzx ▸ hx
    · simp only [State.settle, Function.update_of_ne hzx] at hz
      exact hs.accepting z hz
  acceptor l hl := update_true x (hs.acceptor l hl)
  link := hs.link
  dialing := hs.dialing
  awaiting := hs.awaiting
  latest := hs.latest

/-- Only those who accept connections, and have joined therefore, number them. -/
theorem push (hs : s.Ordered) (hy : s.accepting y) (x : K) : (s.push y x).Ordered :=
  { hs with
    unstarted := by
      rintro z hz
      have hzy : z ≠ y := by
        rintro rfl
        exact hz (hs.mem_started (hs.accepting z hy))
      simp only [State.push, Function.update_of_ne hzy]
      exact hs.unstarted z hz
    dialing := by
      rintro z w hz
      obtain ⟨hawaiting, hup | ⟨hjoined, hnext, hyounger⟩⟩ := hs.dialing z w hz
      · exact ⟨hawaiting, .inl hup⟩
      · have hzy : z ≠ y := by
          rintro rfl
          cases hjoined.symm.trans (hs.accepting z hy)
        refine ⟨hawaiting, .inr ⟨hjoined, ?_, hyounger⟩⟩
        simpa only [State.push, Function.update_of_ne hzy] using hnext }

/-- Changes to links that only tell their acceptors' numbers and answers. -/
theorem map (hs : s.Ordered) {f : Link K M → Link K M}
    (hf : ∀ l, (f l).dialer = l.dialer ∧ (f l).dialerSerial = l.dialerSerial ∧
      (f l).acceptor = l.acceptor ∧ (l.reply ≠ none → (f l).reply ≠ none)) :
    Ordered { s with links := s.links.map f } := by
  have hgrows : s.Grows { s with links := s.links.map f } :=
    ⟨⟨[], (List.append_nil _).symm⟩, fun z hz => hz, fun z hz => hz,
      fun l hl => ⟨f l, List.mem_map_of_mem hl, hf l⟩⟩
  constructor
  · exact hs.unstarted
  · exact hs.accepting
  · rintro _ hm
    obtain ⟨l, hl, rfl⟩ := List.mem_map.mp hm
    rw [(hf l).2.2.1]
    exact hs.acceptor l hl
  · rintro _ hm
    obtain ⟨l, hl, rfl⟩ := List.mem_map.mp hm
    rw [(hf l).1, (hf l).2.1, (hf l).2.2.1]
    apply (hs.link l hl).imp hgrows.upward
    rintro ⟨hzero, hyounger, hreply⟩
    exact ⟨hzero, hyounger, fun hj => (hf l).2.2.2 (hreply hj)⟩
  · rintro z y hz
    obtain ⟨hawaiting, hdial⟩ := hs.dialing z y hz
    exact ⟨hawaiting, hdial.imp_left hgrows.upward⟩
  · rintro z n hz
    obtain ⟨l, hl, hdialed, hup⟩ := hs.awaiting z n hz
    refine ⟨f l, List.mem_map_of_mem hl, ?_, fun hj => ?_⟩
    · rwa [Link.DialedAs, (hf l).1, (hf l).2.1]
    · rw [(hf l).2.2.1]
      exact hgrows.upward (hup hj)
  · rintro _ hm n hn
    obtain ⟨l, hl, rfl⟩ := List.mem_map.mp hm
    rw [(hf l).1] at hn
    rw [(hf l).2.1]
    exact hs.latest l hl n hn

theorem started_of_dialing (hs : s.Ordered) (h : s.dialing x = some y) : x ∈ s.started := by
  obtain ⟨-, hup | ⟨-, -, hyounger⟩⟩ := hs.dialing x y h
  · exact hs.mem_started hup.1
  · exact hyounger.1

theorem connect (hs : s.Ordered) (hw : s.Wired) (hello : M) (hdial : s.dialing x = some y)
    (hacc : s.accepting y) (h : s.Grows (s.connect x y hello)) :
    (s.connect x y hello).Ordered where
  unstarted z hz := by
    have hzx : z ≠ x := by
      rintro rfl
      exact hz (hs.started_of_dialing hdial)
    simp only [State.connect, Function.update_of_ne hzx]
    exact hs.unstarted z hz
  accepting := hs.accepting
  acceptor l hl := by
    rcases mem_dialed hl with hl | rfl
    · exact hs.acceptor l hl
    · exact hacc
  link l hl := by
    rcases mem_dialed hl with hl | rfl
    · apply (hs.link l hl).imp h.upward
      rintro ⟨hzero, hyounger, hreply⟩
      exact ⟨hzero, h.younger hyounger, hreply⟩
    · obtain ⟨-, hup | ⟨hjoined, hnext, hyounger⟩⟩ := hs.dialing x y hdial
      · exact .inl (h.upward hup)
      · exact .inr ⟨hnext, h.younger hyounger, fun hj => (Bool.false_ne_true
          (hjoined.symm.trans hj)).elim⟩
  dialing z w hz := by
    have hzx : z ≠ x := by
      rintro rfl
      simp [State.connect] at hz
    simp only [State.connect, Function.update_of_ne hzx] at hz ⊢
    obtain ⟨hawaiting, hdial⟩ := hs.dialing z w hz
    exact ⟨hawaiting, hdial.imp_left h.upward⟩
  awaiting z n hz := by
    by_cases hzx : z = x
    · subst hzx
      obtain rfl : s.next z = n := by simpa [State.connect] using hz
      refine ⟨_, List.mem_append_right _ (List.mem_singleton_self _), ⟨rfl, rfl⟩, fun hj => ?_⟩
      obtain ⟨-, hup | ⟨hjoined, -, -⟩⟩ := hs.dialing z y hdial
      · exact h.upward hup
      · exact (Bool.false_ne_true (hjoined.symm.trans hj)).elim
    · simp only [State.connect, Function.update_of_ne hzx] at hz
      obtain ⟨l, hl, hdialed, hup⟩ := hs.awaiting z n hz
      exact ⟨l, List.mem_append_left _ hl, hdialed, fun hj => h.upward (hup hj)⟩
  latest l hl n hn := by
    rcases mem_dialed hl with hl | rfl
    · by_cases hlx : l.dialer = x
      · obtain rfl : s.next x = n := by simpa [State.connect, hlx] using hn
        exact Nat.le_of_lt (hlx ▸ hw.dialed l hl)
      · simp only [State.connect, Function.update_of_ne hlx] at hn
        exact hs.latest l hl n hn
    · obtain rfl : s.next x = n := by simpa [State.connect] using hn
      exact Nat.le_refl _

/-- A party that awaits an answer before it has joined has made no other connection. -/
theorem unique_of_not_joined (hs : s.Ordered) (hw : s.Wired) {l l' : Link K M} (hl : l ∈ s.links)
    (hl' : l' ∈ s.links) (hjoined : s.joined l.dialer = false) (hx : l'.dialer = l.dialer) :
    l' = l := by
  have hzero : ∀ l₁ ∈ s.links, l₁.dialer = l.dialer → l₁.dialerSerial = 0 := by
    rintro l₁ hl₁ hx₁
    rcases hs.link l₁ hl₁ with hup | ⟨hzero, -, -⟩
    · exact (Bool.false_ne_true (hjoined.symm.trans (hx₁ ▸ hup.1))).elim
    · exact hzero
  exact hw.unique l' hl' l hl hx ((hzero l' hl' hx).trans (hzero l hl rfl).symm)

theorem complete (hs : s.Ordered) (hw : s.Wired) {l : Link K M} (hl : l ∈ s.links)
    (hawaiting : s.awaiting l.dialer = some l.dialerSerial) (hreply : l.reply ≠ none)
    (h : s.Grows (s.complete l.dialer l.acceptor l.dialerSerial)) :
    (s.complete l.dialer l.acceptor l.dialerSerial).Ordered where
  unstarted z hz := by
    have hne : z ≠ l.dialer := by
      rintro rfl
      cases (hs.unstarted _ hz).2.1.symm.trans hawaiting
    simp only [State.complete, State.enter, State.giveUp, Function.update_of_ne hne]
    exact hs.unstarted z hz
  accepting z hz := h.joined z (hs.accepting z hz)
  acceptor := hs.acceptor
  link l' hl' := by
    rcases hs.link l' hl' with hup | ⟨hzero, hyounger, hreply'⟩
    · exact .inl (h.upward hup)
    · refine .inr ⟨hzero, h.younger hyounger, fun hj => ?_⟩
      cases hjoined : s.joined l'.dialer with
      | true => exact hreply' hjoined
      | false =>
        have hx : l'.dialer = l.dialer := by
          by_contra hne
          simp only [State.complete, Function.update_of_ne hne] at hj
          cases hjoined.symm.trans hj
        exact hs.unique_of_not_joined hw hl hl' (hx ▸ hjoined) hx ▸ hreply
  dialing z y hz := by
    obtain ⟨hnone, hdial⟩ := hs.dialing z y hz
    have hne : z ≠ l.dialer := by
      rintro rfl
      cases hnone.symm.trans hawaiting
    refine ⟨giveUp_eq_none hnone, hdial.imp h.upward ?_⟩
    rintro ⟨hjoined, hnext, hyounger⟩
    refine ⟨?_, hnext, hyounger⟩
    simpa only [State.complete, Function.update_of_ne hne] using hjoined
  awaiting z n hz := by
    have hne : z ≠ l.dialer := by
      rintro rfl
      simp [State.complete, State.enter, State.giveUp] at hz
    obtain ⟨l', hl', hdialed, hup⟩ := hs.awaiting z n (giveUp_eq_some hz)
    refine ⟨l', hl', hdialed, fun hj => h.upward (hup ?_)⟩
    simpa only [State.complete, Function.update_of_ne hne] using hj
  latest l' hl' n hn := hs.latest l' hl' n (giveUp_eq_some hn)

theorem step (hs : s.Ordered) (hw : s.Wired) (h : s.Step s') : s'.Ordered := by
  have hgrows := h.grows
  cases h with
  | found hx => exact hs.found hx hgrows
  | join hx hy => exact hs.join hx hy hgrows
  | call hawaiting _ hup => exact hs.call hawaiting hup
  | connect hello hdial hacc => exact hs.connect hw hello hdial hacc hgrows
  | accept hl => exact (hs.push (hs.acceptor _ hl) _).map fun l => by simp
  | ignore => exact { hs with }
  | @answer y x t l msg =>
    have hpop : State.Ordered ((s.pop y).enter y x t) := { hs with }
    exact hpop.map fun l => by simpa using l.reply_answer_ne_none _ _ _
  | complete hl hawaiting hreply => exact hs.complete hw hl hawaiting hreply hgrows
  | dropped => exact hs.giveUp _
  | settle hx => exact hs.settle hx

theorem fault (hs : s.Ordered) (h : s.Fault s') : s'.Ordered := by
  cases h with
  | hangUp x => exact hs.hangUp x
  | giveUp x => exact hs.giveUp x
  | stray x hy => exact hs.push hy x
  | refuse => exact { hs with }
  | forget => exact { hs with }

end Ordered

/-! ## No cycles -/

/-- `x` dials `y`, or awaits an answer that `y` has not written yet. -/
def Waits (s : State K M) (x y : K) : Prop :=
  s.dialing x = some y ∨
    ∃ l ∈ s.links, l.dialer = x ∧ s.awaiting x = some l.dialerSerial ∧ l.acceptor = y ∧
      l.reply = none

/-- Known parties come last, in the order of their keys; others come in reverse order of age. -/
def Precedes (s : State K M) (x y : K) : Prop :=
  ¬ s.Known x ∧ s.Known y ∨ s.Known x ∧ s.Known y ∧ x < y ∨
    ¬ s.Known x ∧ ¬ s.Known y ∧ s.started.idxOf y < s.started.idxOf x

theorem Precedes.trans (h : s.Precedes x y) (h' : s.Precedes y z) : s.Precedes x z := by
  unfold Precedes at *
  rcases h with ⟨hx, hy⟩ | ⟨hx, hy, hlt⟩ | ⟨hx, hy, hlt⟩ <;>
    rcases h' with ⟨hy', hz⟩ | ⟨hy', hz, hlt'⟩ | ⟨hy', hz, hlt'⟩
  · exact absurd hy hy'
  · exact .inl ⟨hx, hz⟩
  · exact absurd hy hy'
  · exact absurd hy hy'
  · exact .inr (.inl ⟨hx, hz, hlt.trans hlt'⟩)
  · exact absurd hy hy'
  · exact .inl ⟨hx, hz⟩
  · exact absurd hy' hy
  · exact .inr (.inr ⟨hx, hz, Nat.lt_trans hlt' hlt⟩)

theorem Precedes.irrefl : ¬ s.Precedes x x := by
  rintro (⟨hx, hx'⟩ | ⟨-, -, hlt⟩ | ⟨-, -, hlt⟩)
  · exact hx hx'
  · exact lt_irrefl x hlt
  · exact Nat.lt_irrefl _ hlt

theorem Younger.precedes (h : s.Younger x y) (hx : ¬ s.Known x) : s.Precedes x y := by
  by_cases hy : s.Known y
  · exact .inl ⟨hx, hy⟩
  · exact .inr (.inr ⟨hx, hy, h.2.2⟩)

theorem Upward.precedes (h : s.Upward x y) : s.Precedes x y := .inr (.inl ⟨.inl h.1, h.2.2, h.2.1⟩)

theorem Waits.precedes (hs : s.Ordered) (hw : s.Wired) (h : s.Waits x y) : s.Precedes x y := by
  rcases h with hdial | ⟨l, hl, rfl, hawaiting, rfl, hreply⟩
  · obtain ⟨-, hup | ⟨hjoined, hnext, hyounger⟩⟩ := hs.dialing x y hdial
    · exact hup.precedes
    · refine hyounger.precedes ?_
      rintro (hj | ⟨l, hl, rfl, -⟩)
      · cases hjoined.symm.trans hj
      · have hlt := hw.dialed l hl
        omega
  · rcases hs.link l hl with hup | ⟨-, hyounger, hjoined⟩
    · exact hup.precedes
    · have hfresh : s.joined l.dialer = false :=
        Bool.eq_false_iff.mpr fun hj => hjoined hj hreply
      refine hyounger.precedes ?_
      rintro (hj | ⟨l', hl', hx, hreply'⟩)
      · exact hjoined hj hreply
      · exact hreply' (hs.unique_of_not_joined hw hl hl' hfresh hx ▸ hreply)

theorem acyclic (hs : s.Ordered) (hw : s.Wired) (x : K) : ¬ Relation.TransGen s.Waits x x := by
  have hprecedes : ∀ y, Relation.TransGen s.Waits x y → s.Precedes x y := by
    rintro y hy
    induction hy with
    | single h => exact h.precedes hs hw
    | tail _ h ih => exact ih.trans (h.precedes hs hw)
  exact fun hx => Precedes.irrefl (hprecedes x hx)

end State

end Contacts
