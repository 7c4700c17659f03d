import Mathlib.Algebra.BigOperators.Group.List.Basic
import Mathlib.Algebra.Order.BigOperators.Group.List
import Mathlib.Algebra.Order.Group.Multiset
import Mathlib.Algebra.Order.Ring.Nat
import Mathlib.Data.Multiset.Range
import Mathlib.Tactic.Abel
import Meshconf.Buffers.Pool
import Meshconf.Transition.Run

/-! # The handles of a pool

Buffers of one pool are written, frozen, cloned and dropped in any order. Every vector
that the pool has made is at rest, in one exclusive buffer, or behind one family of
shared handles, and it rests exactly when nobody holds it. A new one is made only when
all are held, so there are as many as were ever held at once.
-/

namespace Meshconf.Buffers

open Transition

/-- A pool, the exclusive buffers and the families of shared handles that are alive. -/
structure Handles (α : Type) where
  pool : BufPool α := {}
  owned : List (PoolBuf α) := []
  shared : List (SharedBuf α) := []

/-- An operation, on the exclusive buffer or the family at a position. -/
inductive Action (α : Type)
  | checkoutEmpty
  | checkout (len : ℕ)
  | push (i : ℕ) (value : α)
  | pushSlice (i : ℕ) (values : List α)
  | write (i : ℕ) (values : List α)
  | share (i : ℕ)
  | truncateAndShare (i len : ℕ)
  | clone (i : ℕ)
  | dropOwned (i : ℕ)
  | dropShared (i : ℕ)

namespace Handles

variable {α : Type}

def setOwned (s : Handles α) (i : ℕ) (b : PoolBuf α) : Handles α :=
  { s with owned := s.owned.set i b }

/-- A buffer is consumed: a family takes its vector, and the rest of it is dropped. -/
def freeze (s : Handles α) (i : ℕ) (r : SharedBuf α × PoolBuf α) : Handles α where
  pool := r.2.drop s.pool
  owned := s.owned.eraseIdx i
  shared := s.shared ++ [r.1]

def step [Inhabited α] (s : Handles α) : Action α → Option (Handles α)
  | .checkoutEmpty =>
    some { s with pool := s.pool.checkoutEmpty.2, owned := s.owned ++ [s.pool.checkoutEmpty.1] }
  | .checkout len =>
    some { s with pool := (s.pool.checkout len).2, owned := s.owned ++ [(s.pool.checkout len).1] }
  | .push i value => (s.owned[i]?.bind (·.push value)).map (s.setOwned i)
  | .pushSlice i values => (s.owned[i]?.bind (·.pushSlice values)).map (s.setOwned i)
  | .write i values => (s.owned[i]?.bind (·.write values)).map (s.setOwned i)
  | .share i => (s.owned[i]?.bind (·.share)).map (s.freeze i)
  | .truncateAndShare i len => (s.owned[i]?.bind (·.truncateAndShare len)).map (s.freeze i)
  | .clone i => s.shared[i]?.map fun f => { s with shared := s.shared.set i f.clone }
  | .dropOwned i =>
    s.owned[i]?.map fun b => { s with pool := b.drop s.pool, owned := s.owned.eraseIdx i }
  | .dropShared i =>
    s.shared[i]?.map fun f =>
      match f.release with
      | some rest => { s with shared := s.shared.set i rest }
      | none => { s with pool := f.dropInner s.pool, shared := s.shared.eraseIdx i }

/-! ## Places -/

/-- The identity of the vector in an exclusive buffer. -/
def heldBy (b : PoolBuf α) : Multiset ℕ :=
  match b.inner with
  | some v => {v.id}
  | none => 0

def restingIds (p : BufPool α) : Multiset ℕ := p.resting.map (·.id)

def ownedIds (s : Handles α) : Multiset ℕ := (s.owned.map heldBy).sum

def sharedIds (s : Handles α) : Multiset ℕ := s.shared.map (·.data.id)

/-- The vectors that somebody holds. -/
def outstanding (s : Handles α) : ℕ := s.owned.length + s.shared.length

/-- How many handles there are to the vector. -/
def handlesTo (s : Handles α) (id : ℕ) : ℕ :=
  s.owned.countP (fun b => id ∈ heldBy b) +
    (s.shared.map fun f => if f.data.id = id then f.handles else 0).sum

/-- The invariant: vectors at rest are empty, live buffers have one, and each is in one place. -/
structure Inv (s : Handles α) : Prop where
  clean : s.pool.Clean
  live : ∀ b ∈ s.owned, ∃ v, b.inner = some v
  places : restingIds s.pool + s.ownedIds + s.sharedIds = Multiset.range s.pool.created

variable {s s' : Handles α} {b : PoolBuf α} {v w : Buf α} {i : ℕ}

theorem Inv.new : Inv ({} : Handles α) := ⟨by simp [BufPool.Clean], by simp, rfl⟩

theorem restingIds_push (p : BufPool α) (v : Buf α) :
    restingIds (p.push v) = {v.id} + restingIds p := rfl

/-- A pop takes a vector from the rest, or makes one with a new number. -/
theorem restingIds_pop (p : BufPool α) :
    restingIds p.pop.2 + {p.pop.1.id} + Multiset.range p.created =
      restingIds p + Multiset.range p.pop.2.created := by
  unfold BufPool.pop
  cases hr : p.resting with
  | nil =>
    simp only [restingIds, hr, List.map_nil, Multiset.coe_nil, zero_add, Multiset.range_succ]
    exact Multiset.singleton_add _ _
  | cons v rest =>
    simp only [restingIds, hr, List.map_cons, ← Multiset.cons_coe, ← Multiset.singleton_add]
    abel

theorem sum_map_of_getElem? {β : Type} (f : β → Multiset ℕ) {l : List β} {b : β}
    (h : l[i]? = some b) : (l.map f).sum = f b + ((l.eraseIdx i).map f).sum := by
  obtain ⟨hi, rfl⟩ := List.getElem?_eq_some_iff.mp h
  exact ((List.getElem_cons_eraseIdx_perm hi).map f).sum_eq.symm

theorem sum_map_set {β : Type} (f : β → Multiset ℕ) {l : List β} {b : β} (h : l[i]? = some b)
    (c : β) : ((l.set i c).map f).sum = f c + ((l.eraseIdx i).map f).sum := by
  obtain ⟨hi, -⟩ := List.getElem?_eq_some_iff.mp h
  exact ((List.set_perm_cons_eraseIdx hi c).map f).sum_eq

/-- The identities behind shared handles, as a sum. -/
theorem sharedIds_eq (s : Handles α) :
    s.sharedIds = (s.shared.map fun f => ({f.data.id} : Multiset ℕ)).sum := by
  unfold sharedIds
  induction s.shared with
  | nil => rfl
  | cons f rest ih =>
    rw [List.map_cons, List.map_cons, List.sum_cons, ← ih, ← Multiset.cons_coe,
      Multiset.singleton_add]

/-! ## Steps -/

/-- A checkout hands out one more buffer. -/
theorem Inv.checkout (h : s.Inv) {v : Buf α} (hv : v.id = s.pool.pop.1.id) :
    Inv { s with pool := s.pool.pop.2, owned := s.owned ++ [⟨some v⟩] } := by
  refine ⟨h.clean.pop.2, ?_, ?_⟩
  · intro b hb
    rcases List.mem_append.mp hb with hb | hb
    · exact h.live b hb
    · cases List.mem_singleton.mp hb
      exact ⟨v, rfl⟩
  · have hpop := restingIds_pop s.pool
    rw [← h.places] at hpop
    apply add_left_cancel (a := restingIds s.pool)
    rw [← hpop]
    simp only [ownedIds, sharedIds, List.map_append, List.map_cons, List.map_nil, List.sum_append,
      List.sum_singleton, heldBy, hv]
    abel

/-- A buffer that is written to keeps its vector. -/
theorem Inv.setOwned (h : s.Inv) (hb : s.owned[i]? = some b) (hv : b.inner = some v)
    (hid : w.id = v.id) : (s.setOwned i ⟨some w⟩).Inv := by
  refine ⟨h.clean, ?_, ?_⟩
  · intro c hc
    rcases List.mem_or_eq_of_mem_set hc with hc | rfl
    · exact h.live c hc
    · exact ⟨w, rfl⟩
  · have hheld : heldBy ⟨some w⟩ = heldBy b := by simp only [heldBy, hv, hid]
    have howned : (s.setOwned i ⟨some w⟩).ownedIds = s.ownedIds := by
      unfold ownedIds Handles.setOwned
      rw [sum_map_set heldBy hb, sum_map_of_getElem? heldBy hb, hheld]
    rw [howned]
    exact h.places

theorem Inv.dropOwned (h : s.Inv) (hb : s.owned[i]? = some b) :
    Inv { s with pool := b.drop s.pool, owned := s.owned.eraseIdx i } := by
  obtain ⟨v, hv⟩ := h.live b (List.mem_of_getElem? hb)
  have hdrop : b.drop s.pool = s.pool.push v.clear := by rw [PoolBuf.drop, hv]
  have hheld : heldBy b = {v.id} := by rw [heldBy, hv]
  rw [hdrop]
  refine ⟨h.clean.push v, fun c hc => h.live c (List.mem_of_mem_eraseIdx hc), ?_⟩
  have hplaces := h.places
  rw [ownedIds, sum_map_of_getElem? heldBy hb, hheld] at hplaces
  rw [restingIds_push, Buf.id_clear]
  refine Eq.trans ?_ hplaces
  simp only [ownedIds, sharedIds]
  abel

/-- Freezing moves the vector behind a first shared handle; nothing goes back to the pool. -/
theorem Inv.freeze (h : s.Inv) (hb : s.owned[i]? = some b) (hv : b.inner = some v)
    {f : SharedBuf α} (hid : f.data.id = v.id) : (s.freeze i (f, ⟨none⟩)).Inv := by
  have hheld : heldBy b = {f.data.id} := by rw [heldBy, hv, hid]
  refine ⟨h.clean, fun c hc => h.live c (List.mem_of_mem_eraseIdx hc), ?_⟩
  have hplaces := h.places
  rw [ownedIds, sum_map_of_getElem? heldBy hb, hheld, sharedIds_eq] at hplaces
  refine Eq.trans ?_ hplaces
  simp only [Handles.freeze, PoolBuf.drop, ownedIds, sharedIds_eq, List.map_append,
    List.map_cons, List.map_nil, List.sum_append, List.sum_singleton]
  abel

theorem Inv.setShared (h : s.Inv) {f f' : SharedBuf α} (hf : s.shared[i]? = some f)
    (hid : f'.data = f.data) : Inv { s with shared := s.shared.set i f' } := by
  refine ⟨h.clean, h.live, ?_⟩
  have hplaces := h.places
  rw [sharedIds_eq, sum_map_of_getElem? _ hf] at hplaces
  rw [sharedIds_eq, sum_map_set _ hf, hid]
  exact hplaces

/-- The last handle brings the vector back. -/
theorem Inv.dropLast (h : s.Inv) {f : SharedBuf α} (hf : s.shared[i]? = some f) :
    Inv { s with pool := f.dropInner s.pool, shared := s.shared.eraseIdx i } := by
  refine ⟨h.clean.push f.data, h.live, ?_⟩
  have hplaces := h.places
  rw [sharedIds_eq, sum_map_of_getElem? _ hf] at hplaces
  rw [SharedBuf.dropInner, restingIds_push, Buf.id_clear, sharedIds_eq]
  refine Eq.trans ?_ hplaces
  simp only [ownedIds]
  abel

/-- What an operation can do. -/
inductive Stepped (s : Handles α) : Handles α → Prop
  | checkout {v : Buf α} : v.id = s.pool.pop.1.id →
      Stepped s { s with pool := s.pool.pop.2, owned := s.owned ++ [⟨some v⟩] }
  | setOwned {i : ℕ} {b : PoolBuf α} {v w : Buf α} :
      s.owned[i]? = some b → b.inner = some v → w.id = v.id →
      Stepped s (s.setOwned i ⟨some w⟩)
  | freeze {i : ℕ} {b : PoolBuf α} {v : Buf α} {f : SharedBuf α} :
      s.owned[i]? = some b → b.inner = some v → f.data.id = v.id →
      Stepped s (s.freeze i (f, ⟨none⟩))
  | dropOwned {i : ℕ} {b : PoolBuf α} : s.owned[i]? = some b →
      Stepped s { s with pool := b.drop s.pool, owned := s.owned.eraseIdx i }
  | setShared {i : ℕ} {f f' : SharedBuf α} : s.shared[i]? = some f → f'.data = f.data →
      Stepped s { s with shared := s.shared.set i f' }
  | dropLast {i : ℕ} {f : SharedBuf α} : s.shared[i]? = some f →
      Stepped s { s with pool := f.dropInner s.pool, shared := s.shared.eraseIdx i }

theorem release_data {f f' : SharedBuf α} (h : f.release = some f') : f'.data = f.data := by
  unfold SharedBuf.release at h
  split_ifs at h
  obtain rfl := Option.some.inj h
  rfl

variable [Inhabited α]

theorem stepped_of_step {a : Action α} (hs : s.step a = some s') : s.Stepped s' := by
  cases a with
  | checkoutEmpty =>
    obtain rfl := Option.some.inj hs
    exact .checkout rfl
  | checkout len =>
    obtain rfl := Option.some.inj hs
    exact .checkout rfl
  | push i value =>
    obtain ⟨b', hb', rfl⟩ := Option.map_eq_some_iff.mp hs
    obtain ⟨b, hb, hb'⟩ := Option.bind_eq_some_iff.mp hb'
    obtain ⟨v, hv, rfl⟩ := Option.map_eq_some_iff.mp hb'
    exact .setOwned hb hv rfl
  | pushSlice i values =>
    obtain ⟨b', hb', rfl⟩ := Option.map_eq_some_iff.mp hs
    obtain ⟨b, hb, hb'⟩ := Option.bind_eq_some_iff.mp hb'
    obtain ⟨v, hv, rfl⟩ := Option.map_eq_some_iff.mp hb'
    exact .setOwned hb hv rfl
  | write i values =>
    obtain ⟨b', hb', rfl⟩ := Option.map_eq_some_iff.mp hs
    obtain ⟨b, hb, hb'⟩ := Option.bind_eq_some_iff.mp hb'
    obtain ⟨v, hv, hb'⟩ := Option.bind_eq_some_iff.mp hb'
    split_ifs at hb'
    obtain rfl := Option.some.inj hb'
    exact .setOwned hb hv rfl
  | share i =>
    obtain ⟨r, hr, rfl⟩ := Option.map_eq_some_iff.mp hs
    obtain ⟨b, hb, hr⟩ := Option.bind_eq_some_iff.mp hr
    obtain ⟨taken, htaken, rfl⟩ := Option.map_eq_some_iff.mp hr
    obtain ⟨v, hv, rfl⟩ := Option.map_eq_some_iff.mp htaken
    exact .freeze hb hv rfl
  | truncateAndShare i len =>
    obtain ⟨r, hr, rfl⟩ := Option.map_eq_some_iff.mp hs
    obtain ⟨b, hb, hr⟩ := Option.bind_eq_some_iff.mp hr
    obtain ⟨taken, htaken, rfl⟩ := Option.map_eq_some_iff.mp hr
    obtain ⟨v, hv, rfl⟩ := Option.map_eq_some_iff.mp htaken
    exact .freeze hb hv (v.id_truncate len)
  | clone i =>
    obtain ⟨f, hf, rfl⟩ := Option.map_eq_some_iff.mp hs
    exact .setShared hf rfl
  | dropOwned i =>
    obtain ⟨b, hb, rfl⟩ := Option.map_eq_some_iff.mp hs
    exact .dropOwned hb
  | dropShared i =>
    obtain ⟨f, hf, rfl⟩ := Option.map_eq_some_iff.mp hs
    cases hr : f.release with
    | some f' => exact .setShared hf (release_data hr)
    | none => exact .dropLast hf

theorem Inv.step (h : s.Inv) {a : Action α} (hs : s.step a = some s') : s'.Inv := by
  cases stepped_of_step hs with
  | checkout hid => exact h.checkout hid
  | setOwned hb hv hid => exact h.setOwned hb hv hid
  | freeze hb hv hid => exact h.freeze hb hv hid
  | dropOwned hb => exact h.dropOwned hb
  | setShared hf hdata => exact h.setShared hf hdata
  | dropLast hf => exact h.dropLast hf

/-! ## At rest and held -/

omit [Inhabited α] in
theorem handlesTo_eq_zero_iff (id : ℕ) :
    s.handlesTo id = 0 ↔ id ∉ s.ownedIds ∧ id ∉ s.sharedIds := by
  unfold handlesTo
  rw [Nat.add_eq_zero_iff]
  apply and_congr
  · rw [List.countP_eq_zero, ownedIds]
    induction s.owned with
    | nil => simp
    | cons b rest ih =>
      rw [List.forall_mem_cons, ih, List.map_cons, List.sum_cons, Multiset.mem_add, not_or,
        decide_eq_true_eq]
  · rw [List.sum_eq_zero_iff, sharedIds]
    simp only [Multiset.mem_coe, List.mem_map, not_exists, not_and]
    constructor
    · intro h f hf hid
      have hzero := h _ ⟨f, hf, if_pos hid⟩
      exact f.pos.ne' hzero
    · rintro h n ⟨f, hf, rfl⟩
      exact if_neg (h f hf)

omit [Inhabited α] in
/-- A vector rests exactly when nobody holds it. -/
theorem Inv.resting_iff (h : s.Inv) {id : ℕ} (hid : id < s.pool.created) :
    id ∈ restingIds s.pool ↔ s.handlesTo id = 0 := by
  have hnodup := Multiset.nodup_range s.pool.created
  rw [← h.places, Multiset.nodup_add, Multiset.nodup_add] at hnodup
  have hmem : id ∈ restingIds s.pool + s.ownedIds + s.sharedIds := by
    rw [h.places]
    exact Multiset.mem_range.mpr hid
  rw [Multiset.mem_add, Multiset.mem_add] at hmem
  rw [handlesTo_eq_zero_iff]
  constructor
  · intro hrest
    exact ⟨fun howned => Multiset.disjoint_left.mp hnodup.1.2.2 hrest howned,
      fun hshared => Multiset.disjoint_left.mp hnodup.2.2 (Multiset.mem_add.mpr (.inl hrest))
        hshared⟩
  · rintro ⟨howned, hshared⟩
    exact (hmem.resolve_right hshared).resolve_right howned

omit [Inhabited α] in
theorem Inv.lt_created (h : s.Inv) {id : ℕ} (hid : id ∈ restingIds s.pool ∨ 0 < s.handlesTo id) :
    id < s.pool.created := by
  rw [← Multiset.mem_range, ← h.places, Multiset.mem_add, Multiset.mem_add]
  rcases hid with hid | hid
  · exact .inl (.inl hid)
  · by_contra hnot
    rw [not_or, not_or] at hnot
    exact hid.ne' ((handlesTo_eq_zero_iff id).mpr ⟨hnot.1.2, hnot.2⟩)

omit [Inhabited α] in
theorem card_heldBy {l : List (PoolBuf α)} (h : ∀ b ∈ l, ∃ v, b.inner = some v) :
    Multiset.card (l.map heldBy).sum = l.length := by
  induction l with
  | nil => rfl
  | cons b rest ih =>
    obtain ⟨v, hv⟩ := h b List.mem_cons_self
    rw [List.map_cons, List.sum_cons, Multiset.card_add,
      ih fun c hc => h c (List.mem_cons_of_mem _ hc), List.length_cons]
    simp only [heldBy, hv, Multiset.card_singleton]
    omega

omit [Inhabited α] in
/-- What is not at rest is outstanding. -/
theorem Inv.outstanding_add (h : s.Inv) :
    s.pool.resting.length + s.outstanding = s.pool.created := by
  have hcard := congrArg Multiset.card h.places
  simp only [Multiset.card_add, ownedIds, card_heldBy h.live, restingIds, sharedIds,
    Multiset.coe_card, List.length_map, Multiset.card_range] at hcard
  unfold outstanding
  omega

/-- A new vector is made only when none is at rest. -/
theorem created_step {a : Action α} (hs : s.step a = some s') :
    s'.pool.created = s.pool.created ∨
      s'.pool.created = s.pool.created + 1 ∧ s'.pool.resting = [] := by
  cases stepped_of_step hs with
  | checkout =>
    unfold BufPool.pop
    cases s.pool.resting with
    | nil => exact .inr ⟨rfl, rfl⟩
    | cons v rest => exact .inl rfl
  | setOwned => exact .inl rfl
  | freeze => exact .inl rfl
  | @dropOwned i b hb =>
    unfold PoolBuf.drop
    cases b.inner <;> exact .inl rfl
  | setShared => exact .inl rfl
  | dropLast => exact .inl rfl

/-- A vector comes back in the step that drops the last handle to it, and in no other. -/
theorem Inv.returns_iff (h : s.Inv) {a : Action α} (hs : s.step a = some s') (id : ℕ) :
    (id ∉ restingIds s.pool ∧ id ∈ restingIds s'.pool) ↔
      0 < s.handlesTo id ∧ s'.handlesTo id = 0 := by
  have h' := h.step hs
  have hmono : s.pool.created ≤ s'.pool.created := by
    rcases created_step hs with hc | ⟨hc, -⟩ <;> omega
  constructor
  · rintro ⟨hbefore, hafter⟩
    have hlt' := h'.lt_created (.inl hafter)
    have hlt : id < s.pool.created := by
      rcases created_step hs with hc | ⟨-, hempty⟩
      · omega
      · simp [restingIds, hempty] at hafter
    exact ⟨Nat.pos_of_ne_zero fun hz => hbefore ((h.resting_iff hlt).mpr hz),
      (h'.resting_iff hlt').mp hafter⟩
  · rintro ⟨hbefore, hafter⟩
    have hlt := h.lt_created (.inr hbefore)
    exact ⟨fun hrest => hbefore.ne' ((h.resting_iff hlt).mp hrest),
      (h'.resting_iff (hlt.trans_le hmono)).mpr hafter⟩

/-! ## The peak -/

/-- The most vectors outstanding at once along the given operations. -/
def peak (s : Handles α) : List (Action α) → ℕ
  | [] => s.outstanding
  | a :: as =>
    match s.step a with
    | some t => max s.outstanding (peak t as)
    | none => s.outstanding

theorem outstanding_le_peak (s : Handles α) (as : List (Action α)) :
    s.outstanding ≤ s.peak as := by
  cases as with
  | nil => exact le_rfl
  | cons a as =>
    unfold peak
    cases s.step a with
    | none => exact le_rfl
    | some t => exact le_max_left _ _

theorem Inv.created_eq (h : s.Inv) {as : List (Action α)} (hs : exec Handles.step s as = some s') :
    s'.pool.created = max s.pool.created (s.peak as) := by
  induction as generalizing s with
  | nil =>
    obtain rfl := Option.some.inj hs
    have := h.outstanding_add
    simp only [peak]
    omega
  | cons a as ih =>
    obtain ⟨t, ht, hs⟩ := Option.bind_eq_some_iff.mp hs
    have hcreated := ih (h.step ht) hs
    have hpeak := outstanding_le_peak t as
    have hbefore := h.outstanding_add
    have hafter := (h.step ht).outstanding_add
    rw [hcreated, peak]
    simp only [ht]
    rcases created_step ht with hc | ⟨hc, hempty⟩
    · omega
    · rw [hempty, List.length_nil] at hafter
      omega

theorem Inv.of_exec {as : List (Action α)} (hs : exec Handles.step ({} : Handles α) as = some s) :
    s.Inv :=
  (run_of_exec hs).invariant (fun _ _ _ h _ hs => h.step hs) .new

theorem Inv.checkout_deref (h : s.Inv) (len : ℕ) :
    (s.pool.checkout len).1.deref = some (List.replicate len default) :=
  congrArg some (Buf.elems_resizeWith h.clean.pop.1 len)

/--
After any operations: vectors at rest are empty, so that a checkout hands out nothing of earlier
contents; each vector is in one place, and comes back when its last handle is dropped; and there
are as many as were ever outstanding at once.
-/
theorem pool_invariant {as : List (Action α)}
    (hs : exec Handles.step ({} : Handles α) as = some s) :
    s.Inv ∧
      (∀ len, (s.pool.checkout len).1.deref = some (List.replicate len default)) ∧
      s.pool.checkoutEmpty.1.deref = some [] ∧
      (∀ id < s.pool.created, id ∈ restingIds s.pool ↔ s.handlesTo id = 0) ∧
      (∀ a s', s.step a = some s' → ∀ id, (id ∉ restingIds s.pool ∧ id ∈ restingIds s'.pool) ↔
        0 < s.handlesTo id ∧ s'.handlesTo id = 0) ∧
      s.pool.created = peak {} as := by
  have h := Inv.of_exec hs
  refine ⟨h, h.checkout_deref, rfl, fun id hid => h.resting_iff hid,
    fun a s' ha id => h.returns_iff ha id, ?_⟩
  rw [Inv.new.created_eq hs]
  exact Nat.zero_max _

/-- A buffer is written, shared, cloned and dropped; the next one reuses its vector. -/
def shareThenReuse : List (Action UInt8) :=
  [.checkout 2, .write 0 [7, 8], .share 0, .clone 0, .dropShared 0, .checkoutEmpty, .dropShared 0,
    .checkout 1, .pushSlice 0 [1, 2]]

theorem pool_invariant_shareThenReuse : ∃ s : Handles UInt8,
    exec step {} shareThenReuse = some s ∧ s.pool.created = 2 ∧ s.Inv ∧
      s.pool.created = peak {} shareThenReuse := by
  obtain ⟨s, hs, hcreated⟩ := Option.map_eq_some_iff.mp
    (by decide : (exec step ({} : Handles UInt8) shareThenReuse).map (·.pool.created) = some 2)
  have h := pool_invariant hs
  exact ⟨s, hs, hcreated, h.1, h.2.2.2.2.2⟩

end Handles

end Meshconf.Buffers
