import Mathlib.Data.List.Basic
import Mathlib.Tactic.Common

/-! # Reading from a byte stream

A stream delivers finitely many bytes and then ends, either cleanly or by a
reset. Readers consume it from the front, and record the length of every buffer
they allocate before its bytes have arrived. `Frames m w ns a` says that `m`
reads exactly the word `w`, allocating buffers of lengths `ns`, yields `a`, and
fails on every proper prefix of `w`; it composes along `bind`.
-/

namespace Bytes

/-! ## Computations that may fail -/

theorem bind_eq_ok {ε α β : Type} {x : Except ε α} {f : α → Except ε β} {b : β} :
    x >>= f = .ok b ↔ ∃ a, x = .ok a ∧ f a = .ok b := by
  cases x <;> simp [bind, Except.bind]

/-- A guard before the rest of a computation held if the computation succeeded. -/
theorem guard_eq_ok {ε α : Type} {c : Prop} [Decidable c] {e : ε} {x : Except ε α} {b : α} :
    (do if c then throw e
        x) = .ok b ↔ ¬ c ∧ x = .ok b := by
  by_cases hc : c
  · simp [hc, bind, Except.bind, throw, throwThe, MonadExceptOf.throw]
  · simp [hc]

/-! ## Streams -/

/-- How a stream ends once its bytes are used up. -/
inductive Ending | finished | reset
  deriving DecidableEq, Repr

inductive ReadError where
  | unexpectedEof
  | connectionReset
  | invalid (message : String)
  deriving DecidableEq, Repr

structure Stream where
  input : List UInt8
  ending : Ending
  /-- Lengths of the buffers allocated so far, oldest first. -/
  requested : List ℕ := []
  deriving DecidableEq, Repr

/-- The error of a read past the end. -/
def Ending.error : Ending → ReadError
  | .finished => .unexpectedEof
  | .reset => .connectionReset

abbrev ReadM (α : Type) := ExceptT ReadError (StateM Stream) α

variable {α β : Type}

/-- The result of a reader on a stream, and what is left of the stream. -/
def ReadM.exec (m : ReadM α) (s : Stream) : Except ReadError α × Stream :=
  Id.run ((ExceptT.run m).run s)

/-- Read one byte. -/
def readByte : ReadM UInt8 := ExceptT.mk fun s =>
  match s.input with
  | b :: rest => (.ok b, { s with input := rest })
  | [] => (.error s.ending.error, s)

/-- Fill a buffer of `n` bytes. A failed read has used up the stream. -/
def readExact (n : ℕ) : ReadM (List UInt8) := ExceptT.mk fun s =>
  if n ≤ s.input.length then (.ok (s.input.take n), { s with input := s.input.drop n })
  else (.error s.ending.error, { s with input := [] })

/-- Allocate a buffer of `n` elements. -/
def request (n : ℕ) : ReadM Unit := ExceptT.mk fun s =>
  (.ok (), { s with requested := s.requested ++ [n] })

/-- Run a reader and hand its error to the continuation. -/
def attempt (m : ReadM α) : ReadM (Except ReadError α) := ExceptT.mk fun s =>
  ((.ok (m.exec s).1), (m.exec s).2)

namespace ReadM

variable {m : ReadM α} {f : α → ReadM β} {s t : Stream} {a : α}

@[simp] theorem exec_pure (a : α) (s : Stream) : (pure a : ReadM α).exec s = (.ok a, s) := rfl

@[simp] theorem exec_throw (e : ReadError) (s : Stream) :
    (throw e : ReadM α).exec s = (.error e, s) := rfl

theorem exec_bind (m : ReadM α) (f : α → ReadM β) (s : Stream) :
    (m >>= f).exec s = match m.exec s with
      | (.ok a, t) => (f a).exec t
      | (.error e, t) => (.error e, t) := by
  change (ExceptT.bindCont f (m.exec s).1 : StateM Stream _).run (m.exec s).2 = _
  rcases m.exec s with ⟨_ | _, _⟩ <;> rfl

theorem exec_bind_ok (h : m.exec s = (.ok a, t)) : (m >>= f).exec s = (f a).exec t := by
  rw [exec_bind, h]

theorem exec_bind_error {e : ReadError} (h : m.exec s = (.error e, t)) :
    (m >>= f).exec s = (.error e, t) := by
  rw [exec_bind, h]

@[simp] theorem throw_bind (e : ReadError) (f : α → ReadM β) :
    (throw e : ReadM α) >>= f = throw e := rfl

@[simp] theorem exec_request (n : ℕ) (s : Stream) :
    (request n).exec s = (.ok (), { s with requested := s.requested ++ [n] }) := rfl

@[simp] theorem exec_attempt (m : ReadM α) (s : Stream) :
    (attempt m).exec s = (.ok (m.exec s).1, (m.exec s).2) := rfl

theorem exec_readByte_cons {b : UInt8} {rest : List UInt8} (h : s.input = b :: rest) :
    readByte.exec s = (.ok b, { s with input := rest }) := by
  simp only [readByte, exec, ExceptT.run, ExceptT.mk, StateT.run, h]; rfl

theorem exec_readByte_nil (h : s.input = []) :
    readByte.exec s = (.error s.ending.error, s) := by
  simp only [readByte, exec, ExceptT.run, ExceptT.mk, StateT.run, h]; rfl

theorem exec_readExact_of_le {n : ℕ} (h : n ≤ s.input.length) :
    (readExact n).exec s = (.ok (s.input.take n), { s with input := s.input.drop n }) := by
  simp only [readExact, exec, ExceptT.run, ExceptT.mk, StateT.run, h]; rfl

theorem exec_readExact_of_lt {n : ℕ} (h : s.input.length < n) :
    (readExact n).exec s = (.error s.ending.error, { s with input := [] }) := by
  simp only [readExact, exec, ExceptT.run, ExceptT.mk, StateT.run, Nat.not_le.mpr h]; rfl

theorem readExact_zero : readExact 0 = pure [] := by
  funext s
  simp only [readExact, ExceptT.mk, Nat.zero_le, if_true, List.take_zero, List.drop_zero]
  rfl

end ReadM

/-! ## Framed words -/

/-- The stream after the word before `rest` was read and buffers `ns` were allocated. -/
def Stream.advance (s : Stream) (rest : List UInt8) (ns : List ℕ) : Stream :=
  { s with input := rest, requested := s.requested ++ ns }

@[simp] theorem Stream.input_advance (s : Stream) (rest : List UInt8) (ns : List ℕ) :
    (s.advance rest ns).input = rest := rfl

@[simp] theorem Stream.requested_advance (s : Stream) (rest : List UInt8) (ns : List ℕ) :
    (s.advance rest ns).requested = s.requested ++ ns := rfl

theorem Stream.advance_advance (s : Stream) (rest rest' : List UInt8) (ns ns' : List ℕ) :
    (s.advance rest ns).advance rest' ns' = s.advance rest' (ns ++ ns') := by
  simp [advance]

/--
`m` reads exactly the word `w`, allocates buffers of lengths `ns`, yields `a`, and fails on every
proper prefix of `w`.
-/
structure Frames (m : ReadM α) (w : List UInt8) (ns : List ℕ) (a : α) : Prop where
  whole : ∀ (s : Stream) (rest : List UInt8), s.input = w ++ rest →
    m.exec s = (.ok a, s.advance rest ns)
  cut : ∀ s : Stream, s.input <+: w → s.input ≠ w → ∃ e t, m.exec s = (.error e, t)

namespace Frames

variable {m : ReadM α} {f : α → ReadM β} {w v : List UInt8} {ns ms : List ℕ} {a : α} {b : β}

theorem pure (a : α) : Frames (Pure.pure a : ReadM α) [] [] a where
  whole s rest h := by
    obtain rfl : s.input = rest := h
    simp [Stream.advance]
  cut s h hne := absurd (List.prefix_nil.mp h) hne

theorem bind (hm : Frames m w ns a) (hf : Frames (f a) v ms b) :
    Frames (m >>= f) (w ++ v) (ns ++ ms) b where
  whole s rest h := by
    have hs := hm.whole s (v ++ rest) (by rw [h, List.append_assoc])
    have ht := hf.whole (s.advance (v ++ rest) ns) rest rfl
    rw [ReadM.exec_bind_ok hs, ht, Stream.advance_advance]
  cut s h hne := by
    rcases List.prefix_or_prefix_of_prefix h (List.prefix_append w v) with hp | ⟨q, hq⟩
    · by_cases he : s.input = w
      · -- The first reader takes all of `w`, so the second one meets an empty stream.
        have hs := hm.whole s [] (by simpa using he)
        have hv : ([] : List UInt8) ≠ v := by
          rintro rfl
          exact hne (by simpa using he)
        obtain ⟨e, t, ht⟩ := hf.cut (s.advance [] ns) List.nil_prefix hv
        exact ⟨e, t, (ReadM.exec_bind_ok hs).trans ht⟩
      · obtain ⟨e, t, hs⟩ := hm.cut s hp he
        exact ⟨e, t, ReadM.exec_bind_error hs⟩
    · have hs := hm.whole s q hq.symm
      have hqv : q <+: v := by rwa [← hq, List.prefix_append_right_inj] at h
      have hqne : q ≠ v := fun hqv => hne (by rw [← hq, hqv])
      obtain ⟨e, t, ht⟩ := hf.cut (s.advance q ns) hqv hqne
      exact ⟨e, t, (ReadM.exec_bind_ok hs).trans ht⟩

theorem bind_silent (hm : Frames m w ns a) (hf : Frames (f a) v [] b) :
    Frames (m >>= f) (w ++ v) ns b := by
  simpa using hm.bind hf

theorem silent_bind (hm : Frames m w [] a) (hf : Frames (f a) v ms b) :
    Frames (m >>= f) (w ++ v) ms b := hm.bind hf

theorem map {g : α → β} (hm : Frames m w ns a) :
    Frames (do let x ← m; return g x) w ns (g a) := by
  have h : Frames (m >>= fun x => (Pure.pure (g x) : ReadM β)) (w ++ []) ns (g a) :=
    hm.bind_silent (pure (g a))
  simpa using h

theorem request (n : ℕ) : Frames (Bytes.request n) [] [n] () where
  whole s rest h := by
    obtain rfl : s.input = rest := h
    rfl
  cut s h hne := absurd (List.prefix_nil.mp h) hne

theorem request_bind {n : ℕ} {f : Unit → ReadM β} (hf : Frames (f ()) v ms b) :
    Frames (Bytes.request n >>= f) v (n :: ms) b := (request n).bind hf

theorem readByte (b : UInt8) : Frames Bytes.readByte [b] [] b where
  whole s rest h := by
    rw [ReadM.exec_readByte_cons h]
    simp [Stream.advance]
  cut s h hne := by
    have hnil : s.input = [] := by
      rcases hs : s.input with _ | ⟨c, cs⟩
      · rfl
      · rw [hs, List.cons_prefix_cons, List.prefix_nil] at h
        exact absurd (by rw [hs, h.1, h.2]) hne
    exact ⟨_, _, ReadM.exec_readByte_nil hnil⟩

theorem readExact (w : List UInt8) : Frames (Bytes.readExact w.length) w [] w where
  whole s rest h := by
    rw [ReadM.exec_readExact_of_le (by simp [h]), h]
    simp [Stream.advance]
  cut s h hne := by
    have hlt : s.input.length < w.length :=
      Nat.lt_of_le_of_ne h.length_le fun he => hne (h.eq_of_length he)
    exact ⟨_, _, ReadM.exec_readExact_of_lt hlt⟩

/-- A buffer of known length, of which the continuation makes something without reading on. -/
theorem readExact_bind {f : List UInt8 → ReadM β} (hf : Frames (f w) [] ms b) :
    Frames (Bytes.readExact w.length >>= f) w ms b := by
  simpa using (readExact w).silent_bind hf

end Frames

/-! ## Accepted words -/

/-- No buffer is allocated. -/
def Silent : List UInt8 → ℕ → Prop := fun _ _ => False

/--
The converse of framing: whatever `m` accepts it has read as a word of `W`, and every buffer it
allocates has a length that `N` allows for the bytes in front of it.
-/
structure Accepts (m : ReadM α) (W : List UInt8 → α → Prop) (N : List UInt8 → ℕ → Prop) :
    Prop where
  ok : ∀ s a t, m.exec s = (.ok a, t) → ∃ w ns, W w a ∧ s.input = w ++ t.input ∧
    t = s.advance t.input ns ∧ ∀ n ∈ ns, N s.input n
  error : ∀ s e t, m.exec s = (.error e, t) →
    ∃ ns, t.requested = s.requested ++ ns ∧ ∀ n ∈ ns, N s.input n

namespace Accepts

variable {m : ReadM α} {f : α → ReadM β} {W W' : List UInt8 → α → Prop}
  {V : α → List UInt8 → β → Prop} {N N' : List UInt8 → ℕ → Prop} {M : α → List UInt8 → ℕ → Prop}

theorem mono (hm : Accepts m W N) (hW : ∀ w a, W w a → W' w a) (hN : ∀ w n, N w n → N' w n) :
    Accepts m W' N' where
  ok s a t ht := by
    obtain ⟨w, ns, hw, hin, hs, hns⟩ := hm.ok s a t ht
    exact ⟨w, ns, hW w a hw, hin, hs, fun n hn => hN _ _ (hns n hn)⟩
  error s e t ht := by
    obtain ⟨ns, hs, hns⟩ := hm.error s e t ht
    exact ⟨ns, hs, fun n hn => hN _ _ (hns n hn)⟩

theorem pure (a : α) : Accepts (Pure.pure a : ReadM α) (fun w b => w = [] ∧ b = a) Silent where
  ok s b t h := by
    obtain ⟨rfl, rfl⟩ : a = b ∧ s = t := by simpa using h
    exact ⟨[], [], ⟨rfl, rfl⟩, rfl, by simp [Stream.advance], by simp⟩
  error s e t h := by simp at h

theorem throw (e : ReadError) :
    Accepts (MonadExcept.throw e : ReadM α) (fun _ _ => False) Silent where
  ok s b t h := by simp at h
  error s e' t h := by
    obtain ⟨-, rfl⟩ : e = e' ∧ s = t := by simpa using h
    exact ⟨[], by simp, by simp⟩

theorem bind (hm : Accepts m W N) (hf : ∀ a, Accepts (f a) (V a) (M a)) :
    Accepts (m >>= f) (fun w b => ∃ w₁ a w₂, w = w₁ ++ w₂ ∧ W w₁ a ∧ V a w₂ b)
      (fun w n => N w n ∨ ∃ w₁ a w₂, w = w₁ ++ w₂ ∧ W w₁ a ∧ M a w₂ n) where
  ok s b t h := by
    rcases hs : m.exec s with ⟨e | a, u⟩
    · rw [ReadM.exec_bind_error hs] at h
      simp at h
    · rw [ReadM.exec_bind_ok hs] at h
      obtain ⟨w₁, ns, hw₁, hin, hu, hns⟩ := hm.ok s a u hs
      obtain ⟨w₂, ms, hw₂, hin', ht, hms⟩ := (hf a).ok u b t h
      refine ⟨w₁ ++ w₂, ns ++ ms, ⟨w₁, a, w₂, rfl, hw₁, hw₂⟩,
        by rw [hin, hin', List.append_assoc], ?_, ?_⟩
      · rw [ht, hu, Stream.advance_advance, Stream.input_advance]
      · intro n hn
        rcases List.mem_append.mp hn with hn | hn
        · exact .inl (hns n hn)
        · exact .inr ⟨w₁, a, u.input, hin, hw₁, hms n hn⟩
  error s e t h := by
    rcases hs : m.exec s with ⟨e' | a, u⟩
    · rw [ReadM.exec_bind_error hs] at h
      obtain ⟨-, rfl⟩ : e' = e ∧ u = t := by simpa using h
      obtain ⟨ns, hu, hns⟩ := hm.error s e' u hs
      exact ⟨ns, hu, fun n hn => .inl (hns n hn)⟩
    · rw [ReadM.exec_bind_ok hs] at h
      obtain ⟨w₁, ns, hw₁, hin, hu, hns⟩ := hm.ok s a u hs
      obtain ⟨ms, ht, hms⟩ := (hf a).error u e t h
      refine ⟨ns ++ ms, by rw [ht, hu]; simp, ?_⟩
      intro n hn
      rcases List.mem_append.mp hn with hn | hn
      · exact .inl (hns n hn)
      · exact .inr ⟨w₁, a, u.input, hin, hw₁, hms n hn⟩

/-- The buffers that a run allocates, whether it succeeds or fails. -/
theorem requests (hm : Accepts m W N) (s : Stream) :
    ∃ ns, (m.exec s).2.requested = s.requested ++ ns ∧ ∀ n ∈ ns, N s.input n := by
  rcases hs : m.exec s with ⟨e | a, t⟩
  · exact hm.error s e t hs
  · obtain ⟨w, ns, -, -, ht, hns⟩ := hm.ok s a t hs
    exact ⟨ns, by rw [ht]; rfl, hns⟩

/-- A silent reader followed by silent ones is silent. -/
theorem bind_silent (hm : Accepts m W Silent) (hf : ∀ a, Accepts (f a) (V a) Silent) :
    Accepts (m >>= f) (fun w b => ∃ w₁ a w₂, w = w₁ ++ w₂ ∧ W w₁ a ∧ V a w₂ b) Silent := by
  refine (hm.bind hf).mono (fun _ _ h => h) ?_
  rintro w n (h | ⟨_, _, _, _, _, h⟩) <;> exact h

theorem request (n : ℕ) : Accepts (Bytes.request n) (fun w _ => w = []) (fun _ k => k = n) where
  ok s b t h := by
    obtain rfl : _ = t := by simpa using h
    exact ⟨[], [n], rfl, rfl, rfl, by simp⟩
  error s e t h := by simp at h

/-- A requested buffer stays on record whatever happens afterwards. -/
theorem mem_request_bind {f : Unit → ReadM β} {U : List UInt8 → β → Prop} {n : ℕ}
    (hf : Accepts (f ()) U N) (s : Stream) :
    n ∈ ((Bytes.request n >>= f).exec s).2.requested := by
  rw [ReadM.exec_bind_ok (ReadM.exec_request n s)]
  obtain ⟨ns, hns, -⟩ := hf.requests { s with requested := s.requested ++ [n] }
  rw [hns]
  simp

theorem readByte : Accepts Bytes.readByte (fun w b => w = [b]) Silent where
  ok s b t h := by
    rcases hs : s.input with _ | ⟨c, cs⟩
    · rw [ReadM.exec_readByte_nil hs] at h
      simp at h
    · rw [ReadM.exec_readByte_cons hs] at h
      obtain ⟨rfl, rfl⟩ : c = b ∧ _ = t := by simpa using h
      exact ⟨[c], [], rfl, rfl, by simp [Stream.advance], by simp⟩
  error s e t h := by
    rcases hs : s.input with _ | ⟨c, cs⟩
    · rw [ReadM.exec_readByte_nil hs] at h
      obtain ⟨-, rfl⟩ : _ = e ∧ s = t := by simpa using h
      exact ⟨[], by simp, by simp⟩
    · rw [ReadM.exec_readByte_cons hs] at h
      simp at h

theorem readExact (n : ℕ) :
    Accepts (Bytes.readExact n) (fun w bs => w = bs ∧ bs.length = n) Silent where
  ok s bs t h := by
    rcases Nat.lt_or_ge s.input.length n with hn | hn
    · rw [ReadM.exec_readExact_of_lt hn] at h
      simp at h
    · rw [ReadM.exec_readExact_of_le hn] at h
      obtain ⟨rfl, rfl⟩ : _ = bs ∧ _ = t := by simpa using h
      exact ⟨_, [], ⟨rfl, List.length_take_of_le hn⟩, by simp, by simp [Stream.advance], by simp⟩
  error s e t h := by
    rcases Nat.lt_or_ge s.input.length n with hn | hn
    · rw [ReadM.exec_readExact_of_lt hn] at h
      obtain ⟨-, rfl⟩ : _ = e ∧ _ = t := by simpa using h
      exact ⟨[], by simp, by simp⟩
    · rw [ReadM.exec_readExact_of_le hn] at h
      simp at h

end Accepts

end Bytes
