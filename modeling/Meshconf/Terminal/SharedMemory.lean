import Mathlib.Data.Nat.Digits.Lemmas
import Meshconf.Terminal.Transmission
import Meshconf.Transition.Run

/-! # Images through shared memory

The pixels of an image go into an object of shared memory, and only its name is written to
the terminal, which reads and unlinks the object whenever it comes to it. Names are numbered:
every image is read as it was sent, and nothing stays behind but the objects whose names could
not be written. What the terminal does is not in the program; it is taken from the protocol.
-/

namespace Meshconf.Terminal

open Pieces Transition

/-! ## Transmission -/

/-- Objects of shared memory by their names. -/
abbrev Objects := List UInt8 → Option (List UInt8)

structure ShmScratch extends TransmitScratch where
  shmCounter : ℕ := 0

/-- The call that fails. -/
inductive ShmFault
  | shmOpen
  | ftruncate
  | mmap
  /-- Nothing of the command is taken, and so many of the bytes that wait have been written. -/
  | writeAll (written : ℕ)
  /-- The command is taken, and so many of the bytes that wait have been written. -/
  | flush (written : ℕ)
  deriving DecidableEq, Repr

/-- The standard output: what waits in its buffer, and what the terminal has not read. -/
structure Stdout where
  buffer : List UInt8 := []
  pty : List UInt8 := []

namespace Stdout

variable (o : Stdout)

def writeAll (bytes : List UInt8) : Stdout := { o with buffer := o.buffer ++ bytes }

/-- Write what waits, or only so many bytes of it if that fails. -/
def flush : Option ℕ → Stdout
  | none => { buffer := [], pty := o.pty ++ o.buffer }
  | some n => { buffer := o.buffer.drop n, pty := o.pty ++ o.buffer.take n }

/-- All bytes that the terminal has not read. -/
def stream : List UInt8 := o.pty ++ o.buffer

@[simp] theorem stream_writeAll (bytes : List UInt8) :
    (o.writeAll bytes).stream = o.stream ++ bytes := by
  simp [stream, writeAll]

@[simp] theorem stream_flush (written : Option ℕ) : (o.flush written).stream = o.stream := by
  cases written <;> simp [stream, flush]

end Stdout

/-- `/vc_<pid>_<counter>`. -/
def shmName (pid counter : ℕ) : List UInt8 :=
  ascii "/vc_" ++ decimal pid ++ ascii "_" ++ decimal counter

/-- The size of the buffer for a name and its last byte. -/
def nameBuf : ℕ := 48

def shmSequence (id width height : ℕ) (name : List UInt8) : List UInt8 :=
  [esc] ++ ascii "_Gi=" ++ decimal id ++ ascii ",s=" ++ decimal width ++ ascii ",v=" ++
    decimal height ++ ascii ",a=t,f=24,t=shm,q=2;" ++ name ++ [esc] ++ ascii "\\"

/--
Transmit an image: what becomes of the buffers, the objects and the output, and which call has
failed. `none` if an index is out of range, or the counter overflows.
-/
def transmitImageShm (pid : ℕ) (fault : Option ShmFault) (id width height : ℕ)
    (pixelData : List UInt32) (scratch : ShmScratch) (objects : Objects) (stdout : Stdout) :
    Option (ShmScratch × Objects × Stdout × Except ShmFault Unit) := do
  let pixelCount := width * height % 2 ^ 32
  let rgbLen := pixelCount * 3
  let converted ← (convertToRgb24 pixelData pixelCount scratch.toTransmitScratch).toOption
  guard (scratch.shmCounter + 1 < 2 ^ 64)
  let scratch : ShmScratch := { converted with shmCounter := scratch.shmCounter + 1 }
  let name := shmName pid scratch.shmCounter
  guard (name.length < nameBuf)
  match fault with
  | some .shmOpen => return (scratch, objects, stdout, .error .shmOpen)
  | some .ftruncate =>
    return (scratch, Function.update objects name none, stdout, .error .ftruncate)
  | _ =>
    -- Nothing can be mapped of an empty object.
    if fault = some .mmap ∨ rgbLen = 0 then
      return (scratch, Function.update objects name none, stdout, .error .mmap)
    else
      let out := shmSequence id width height name
      let objects := Function.update objects name (some (scratch.rgbData.take rgbLen))
      let scratch := { scratch with cmdBuf := out }
      match fault with
      | some (.writeAll n) =>
        return (scratch, objects, stdout.flush (some n), .error (.writeAll n))
      | some (.flush n) =>
        return (scratch, objects, (stdout.writeAll out).flush (some n), .error (.flush n))
      | _ => return (scratch, objects, (stdout.writeAll out).flush none, .ok ())

/-! ## The terminal -/

/-- An image as the terminal has it. -/
structure Picture where
  id : ℕ
  width : ℕ
  height : ℕ
  data : List UInt8
  deriving DecidableEq, Repr

/-- Open the object that a command names and unlink it. -/
def openShm (objects : Objects) (cmd : Command) : Option (Picture × Objects) := do
  let id ← cmd.keys.lookup (ascii "i")
  let width ← cmd.keys.lookup (ascii "s")
  let height ← cmd.keys.lookup (ascii "v")
  let data ← objects cmd.payload
  return (⟨number id, number width, number height, data⟩,
    Function.update objects cmd.payload none)

/-- The display and the terminal, with the bytes between them. -/
structure ShmLink where
  scratch : ShmScratch := {}
  objects : Objects := fun _ => none
  stdout : Stdout := {}
  /-- The images whose commands were written, oldest first. -/
  sent : List Picture := []
  /-- The images whose commands could not be written, with their numbers. -/
  abandoned : List (ℕ × Picture) := []
  /-- The images that the terminal has read, oldest first. -/
  shown : List Picture := []

namespace ShmLink

inductive Action
  | transmit (fault : Option ShmFault) (id width height : ℕ) (pixelData : List UInt32)
  /-- What waits in the buffer is written, or that fails. -/
  | flush (written : Option ℕ)
  | read

/-- The image with the pixels of a frame. -/
def picture (id width height : ℕ) (pixelData : List UInt32) : Picture :=
  ⟨id, width, height, (pixelData.take (width * height % 2 ^ 32)).flatMap rgb⟩

/-- The command is written, though the output may not have been flushed. -/
def sends : Except ShmFault Unit → Bool
  | .ok _ | .error (.flush _) => true
  | _ => false

/-- The object is there, and the command is not. -/
def abandons : Except ShmFault Unit → Bool
  | .error (.writeAll _) => true
  | _ => false

def step (pid : ℕ) (s : ShmLink) : Action → Option ShmLink
  | .transmit fault id width height pixelData => do
    let (scratch, objects, stdout, result) ←
      transmitImageShm pid fault id width height pixelData s.scratch s.objects s.stdout
    let p := picture id width height pixelData
    return { s with
      scratch
      objects
      stdout
      sent := s.sent ++ if sends result then [p] else []
      abandoned := s.abandoned ++ if abandons result then [(scratch.shmCounter, p)] else [] }
  | .flush written => some { s with stdout := s.stdout.flush written }
  | .read => do
    let (cmd, pty) ← parseCommand s.stdout.pty
    let (picture, objects) ← openShm s.objects cmd
    return { s with objects, stdout := { s.stdout with pty }, shown := s.shown ++ [picture] }

end ShmLink

/-! ## Names -/

theorem decimal_injective : Function.Injective decimal :=
  Function.LeftInverse.injective number_decimal

theorem shmName_injective (pid : ℕ) : Function.Injective (shmName pid) := fun _ _ h =>
  decimal_injective (List.append_cancel_left h)

theorem esc_notMem_shmName (pid counter : ℕ) : esc ∉ shmName pid counter := by
  have hdecimal : ∀ n, esc ∉ decimal n := fun n => notMem_decimal (by decide)
  have htext : esc ∉ ascii "/vc_" ∧ esc ∉ ascii "_" := by decide
  simp [shmName, hdecimal, htext]

/-! ## Commands -/

def shmKeys (id width height : ℕ) : List (List UInt8 × List UInt8) :=
  [(ascii "i", decimal id), (ascii "s", decimal width), (ascii "v", decimal height),
    (ascii "a", ascii "t"), (ascii "f", ascii "24"), (ascii "t", ascii "shm"),
    (ascii "q", ascii "2")]

theorem shmSequence_eq (id width height : ℕ) (name : List UInt8) :
    shmSequence id width height name =
      0x1b :: 95 :: 71 :: (controlText (shmKeys id width height) ++
        59 :: (name ++ esc :: [92])) := by
  unfold shmSequence controlText shmKeys
  simp [ascii, join, esc]

theorem plain_shmKeys {id width height : ℕ} {k : List UInt8 × List UInt8}
    (hk : k ∈ shmKeys id width height) : Plain k.1 ∧ Plain k.2 := by
  simp only [shmKeys, List.mem_cons, List.not_mem_nil, or_false] at hk
  rcases hk with rfl | rfl | rfl | rfl | rfl | rfl | rfl
  · exact ⟨(by decide : Plain (ascii "i")), plain_decimal id⟩
  · exact ⟨(by decide : Plain (ascii "s")), plain_decimal width⟩
  · exact ⟨(by decide : Plain (ascii "v")), plain_decimal height⟩
  all_goals decide

/-- The terminal reads back the keys and the name. -/
theorem parseCommand_shmSequence {id width height pid counter : ℕ} (rest : List UInt8) :
    parseCommand (shmSequence id width height (shmName pid counter) ++ rest) =
      some (⟨shmKeys id width height, shmName pid counter⟩, rest) := by
  rw [shmSequence_eq]
  exact parseCommand_controlText (List.cons_ne_nil _ _) (fun k => plain_shmKeys)
    (esc_notMem_shmName pid counter) rest

/-- The terminal opens the object that the command names. -/
theorem openShm_eq {objects : Objects} {id width height : ℕ} {name data : List UInt8}
    (h : objects name = some data) :
    openShm objects ⟨shmKeys id width height, name⟩ =
      some (⟨id, width, height, data⟩, Function.update objects name none) := by
  have hid : (shmKeys id width height).lookup (ascii "i") = some (decimal id) := rfl
  have hwidth : (shmKeys id width height).lookup (ascii "s") = some (decimal width) := rfl
  have hheight : (shmKeys id width height).lookup (ascii "v") = some (decimal height) := rfl
  simp only [openShm, hid, hwidth, hheight, h, number_decimal, Option.bind_eq_bind,
    Option.bind_some, Option.pure_def]

/-! ## Transmissions -/

section Transmit

variable {pid id width height : ℕ} {fault : Option ShmFault} {pixelData : List UInt32}
  {scratch scratch' : ShmScratch} {objects objects' : Objects} {stdout stdout' : Stdout}
  {result : Except ShmFault Unit}

theorem length_flatMap_rgb (pixels : List UInt32) :
    (pixels.flatMap rgb).length = pixels.length * 3 := by
  induction pixels with
  | nil => rfl
  | cons px pixels ih =>
    rw [List.flatMap_cons, List.length_append, ih, List.length_cons, Nat.succ_mul, Nat.add_comm]
    rfl

theorem convertToRgb24_toOption {n : ℕ} {s s' : TransmitScratch}
    (h : (convertToRgb24 pixelData n s).toOption = some s') :
    n ≤ pixelData.length ∧ s'.rgbData = (pixelData.take n).flatMap rgb := by
  unfold convertToRgb24 at h
  split_ifs at h with hn
  · obtain rfl := Option.some.inj h
    exact ⟨hn, rfl⟩
  · cases h

/-- What becomes of the object with the next name, and of the command. -/
inductive Transmitted (objects : Objects) (stdout : Stdout) (name : List UInt8) (data : List UInt8)
    (out : List UInt8) : Objects → Stdout → Except ShmFault Unit → Prop
  | written (written : Option ℕ) (result : Except ShmFault Unit) (hsends : ShmLink.sends result)
      (hkeeps : ShmLink.abandons result = false) :
      Transmitted objects stdout name data out (Function.update objects name (some data))
        ((stdout.writeAll out).flush written) result
  | abandoned (n : ℕ) :
      Transmitted objects stdout name data out (Function.update objects name (some data))
        (stdout.flush (some n)) (.error (.writeAll n))
  | failed (after : Objects) (result : Except ShmFault Unit)
      (hafter : after = objects ∨ after = Function.update objects name none)
      (hsends : ShmLink.sends result = false) (hkeeps : ShmLink.abandons result = false) :
      Transmitted objects stdout name data out after stdout result

/-- Only the object with the next name changes: it has the pixels, or it is as good as gone. -/
theorem transmitImageShm_cases
    (h : transmitImageShm pid fault id width height pixelData scratch objects stdout =
      some (scratch', objects', stdout', result)) :
    scratch'.shmCounter = scratch.shmCounter + 1 ∧
      Transmitted objects stdout (shmName pid (scratch.shmCounter + 1))
        (ShmLink.picture id width height pixelData).data
        (shmSequence id width height (shmName pid (scratch.shmCounter + 1)))
        objects' stdout' result := by
  obtain ⟨converted, hconverted, h⟩ := Option.bind_eq_some_iff.mp h
  obtain ⟨hle, hrgb⟩ := convertToRgb24_toOption hconverted
  obtain ⟨-, -, h⟩ := Option.bind_eq_some_iff.mp h
  obtain ⟨-, -, h⟩ := Option.bind_eq_some_iff.mp h
  have hdata : converted.rgbData.take (width * height % 2 ^ 32 * 3) =
      (ShmLink.picture id width height pixelData).data := by
    rw [hrgb]
    refine List.take_of_length_le ?_
    rw [length_flatMap_rgb, List.length_take_of_le hle]
  split at h
  · cases h
    exact ⟨rfl, .failed _ _ (Or.inl rfl) rfl rfl⟩
  · cases h
    exact ⟨rfl, .failed _ _ (Or.inr rfl) rfl rfl⟩
  · split_ifs at h
    · cases h
      exact ⟨rfl, .failed _ _ (Or.inr rfl) rfl rfl⟩
    · rw [← hdata]
      split at h
      · cases h
        exact ⟨rfl, .abandoned _⟩
      · cases h
        exact ⟨rfl, .written _ _ rfl rfl⟩
      · cases h
        exact ⟨rfl, .written _ _ rfl rfl⟩

end Transmit

/-! ## Objects that are held -/

namespace ShmLink

variable {pid counter : ℕ} {s s' : ShmLink} {objects present : Objects}
  {held held' : List (ℕ × Picture)} {p : ℕ × Picture}

/-- Of the names up to the counter, those of the images held have their objects. -/
structure Held (pid : ℕ) (objects : Objects) (counter : ℕ) (present : Objects)
    (held : List (ℕ × Picture)) : Prop where
  nodup : (held.map Prod.fst).Nodup
  bounds : ∀ p ∈ held, p.1 ≤ counter
  stored : ∀ p ∈ held, present (shmName pid p.1) = some p.2.data
  /-- All other objects are as they were before. -/
  frame : ∀ name, (∀ p ∈ held, name ≠ shmName pid p.1) → present name = objects name

theorem held_init (pid : ℕ) (objects : Objects) : Held pid objects 0 objects [] where
  nodup := List.nodup_nil
  bounds p hp := by cases hp
  stored p hp := by cases hp
  frame name _ := rfl

/-- The next name is that of no image held. -/
theorem Held.fresh (h : Held pid objects counter present held) :
    ∀ p ∈ held, shmName pid (counter + 1) ≠ shmName pid p.1 := by
  intro p hp heq
  have hle := h.bounds p hp
  have hnum := shmName_injective pid heq
  omega

theorem Held.creates (h : Held pid objects counter present held) {picture : Picture}
    (hperm : held'.Perm ((counter + 1, picture) :: held)) :
    Held pid objects (counter + 1)
      (Function.update present (shmName pid (counter + 1)) (some picture.data)) held' where
  nodup := by
    refine (hperm.map Prod.fst).nodup_iff.mpr (List.nodup_cons.mpr ⟨fun hmem => ?_, h.nodup⟩)
    obtain ⟨q, hq, heq⟩ := List.mem_map.mp hmem
    have hle := h.bounds q hq
    simp only at heq
    omega
  bounds q hq := by
    rcases List.mem_cons.mp (hperm.mem_iff.mp hq) with rfl | hq
    · exact Nat.le_refl _
    · exact Nat.le_succ_of_le (h.bounds q hq)
  stored q hq := by
    rcases List.mem_cons.mp (hperm.mem_iff.mp hq) with rfl | hq
    · exact Function.update_self _ _ _
    · rw [Function.update_of_ne (h.fresh q hq).symm]
      exact h.stored q hq
  frame name hname := by
    have hne := hname _ (hperm.mem_iff.mpr List.mem_cons_self)
    rw [Function.update_of_ne hne]
    exact h.frame name fun q hq => hname q (hperm.mem_iff.mpr (List.mem_cons_of_mem _ hq))

/-- A transmission that fails before takes at most its own object away. -/
theorem Held.fails (h : Held pid objects counter present held)
    (hfree : ∀ n, objects (shmName pid n) = none) {after : Objects}
    (hafter : after = present ∨
      after = Function.update present (shmName pid (counter + 1)) none) :
    Held pid objects (counter + 1) after held where
  nodup := h.nodup
  bounds q hq := Nat.le_succ_of_le (h.bounds q hq)
  stored q hq := by
    rcases hafter with rfl | rfl
    · exact h.stored q hq
    · rw [Function.update_of_ne (h.fresh q hq).symm]
      exact h.stored q hq
  frame name hname := by
    rcases hafter with rfl | rfl
    · exact h.frame name hname
    · by_cases heq : name = shmName pid (counter + 1)
      · subst heq
        exact (Function.update_self _ _ _).trans (hfree _).symm
      · exact (Function.update_of_ne heq _ _).trans (h.frame name hname)

theorem Held.unlinks (h : Held pid objects counter present (p :: held))
    (hfree : ∀ n, objects (shmName pid n) = none) :
    Held pid objects counter (Function.update present (shmName pid p.1) none) held := by
  obtain ⟨hnew, hnodup⟩ := List.nodup_cons.mp h.nodup
  refine ⟨hnodup, fun q hq => h.bounds q (List.mem_cons_of_mem p hq), ?_, ?_⟩
  · intro q hq
    have hne : shmName pid q.1 ≠ shmName pid p.1 := by
      intro heq
      rw [← shmName_injective pid heq] at hnew
      exact hnew (List.mem_map_of_mem hq)
    exact (Function.update_of_ne hne _ _).trans (h.stored q (List.mem_cons_of_mem p hq))
  · intro name hname
    by_cases heq : name = shmName pid p.1
    · subst heq
      exact (Function.update_self _ _ _).trans (hfree _).symm
    · exact (Function.update_of_ne heq _ _).trans
        (h.frame name (List.forall_mem_cons.mpr ⟨heq, hname⟩))

/-! ## Images on their way -/

variable {pending : List (ℕ × Picture)}

/-- The commands of some images. -/
def commands (pid : ℕ) (pending : List (ℕ × Picture)) : List UInt8 :=
  pending.flatMap fun p => shmSequence p.2.id p.2.width p.2.height (shmName pid p.1)

/-- Images that the terminal has not read yet, with their numbers. -/
structure Pending (pid : ℕ) (objects : Objects) (s : ShmLink) (pending : List (ℕ × Picture)) :
    Prop where
  stream : s.stdout.stream = commands pid pending
  sent : s.sent = s.shown ++ pending.map Prod.snd
  held : Held pid objects s.scratch.shmCounter s.objects (pending ++ s.abandoned)

theorem pending_init (pid : ℕ) (objects : Objects) : Pending pid objects { objects } [] where
  stream := rfl
  sent := rfl
  held := held_init pid objects

theorem Pending.transmits (h : Pending pid objects s pending)
    (hfree : ∀ n, objects (shmName pid n) = none) {fault : Option ShmFault} {id width height : ℕ}
    {pixelData : List UInt32}
    (hs : s.step pid (.transmit fault id width height pixelData) = some s') :
    ∃ pending', Pending pid objects s' pending' := by
  obtain ⟨⟨scratch, after, stdout, result⟩, htransmit, hs⟩ := Option.bind_eq_some_iff.mp hs
  obtain ⟨hcounter, hcase⟩ := transmitImageShm_cases htransmit
  obtain rfl := Option.some.inj hs
  have hheld := h.held
  cases hcase with
  | written written _ hsends hkeeps =>
    refine ⟨pending ++ [(scratch.shmCounter, picture id width height pixelData)], ?_, ?_, ?_⟩
    · dsimp only
      rw [Stdout.stream_flush, Stdout.stream_writeAll, h.stream, hcounter]
      simp [commands, picture]
    · simp [hsends, h.sent]
    · dsimp only
      rw [hkeeps, hcounter, if_neg Bool.false_ne_true, List.append_nil, List.append_assoc]
      exact hheld.creates List.perm_middle
  | abandoned n =>
    refine ⟨pending, (Stdout.stream_flush _ _).trans h.stream, ?_, ?_⟩
    · simp [sends, h.sent]
    · dsimp only
      rw [hcounter, abandons, if_pos rfl, ← List.append_assoc]
      exact hheld.creates List.perm_append_comm
  | failed _ _ hafter hsends hkeeps =>
    refine ⟨pending, h.stream, ?_, ?_⟩
    · simp [hsends, h.sent]
    · dsimp only
      rw [hkeeps, hcounter, if_neg Bool.false_ne_true, List.append_nil]
      exact hheld.fails hfree hafter

/-- What the terminal reads is the oldest image on its way. -/
theorem Pending.reads (h : Pending pid objects s pending)
    (hfree : ∀ n, objects (shmName pid n) = none) (hs : s.step pid .read = some s') :
    ∃ pending', Pending pid objects s' pending' := by
  obtain ⟨⟨cmd, rest⟩, hparse, hs⟩ := Option.bind_eq_some_iff.mp hs
  obtain ⟨⟨read, after⟩, hopen, hs⟩ := Option.bind_eq_some_iff.mp hs
  obtain rfl := Option.some.inj hs
  have hstream : parseCommand (s.stdout.pty ++ s.stdout.buffer) =
      some (cmd, rest ++ s.stdout.buffer) := parseCommand_append hparse _
  rw [show s.stdout.pty ++ s.stdout.buffer = _ from h.stream] at hstream
  cases pending with
  | nil => cases hstream
  | cons p pending =>
    unfold commands at hstream
    rw [List.flatMap_cons, parseCommand_shmSequence] at hstream
    obtain ⟨rfl, hrest⟩ := Prod.mk.inj (Option.some.inj hstream)
    rw [openShm_eq (h.held.stored p (by simp))] at hopen
    obtain ⟨rfl, rfl⟩ := Prod.mk.inj (Option.some.inj hopen)
    refine ⟨pending, hrest.symm, ?_, h.held.unlinks hfree⟩
    rw [h.sent, List.append_assoc]
    rfl

theorem Pending.flushes (h : Pending pid objects s pending) (written : Option ℕ) :
    Pending pid objects { s with stdout := s.stdout.flush written } pending where
  stream := (s.stdout.stream_flush written).trans h.stream
  sent := h.sent
  held := h.held

theorem Pending.step (h : Pending pid objects s pending)
    (hfree : ∀ n, objects (shmName pid n) = none) {a : Action} (hs : s.step pid a = some s') :
    ∃ pending', Pending pid objects s' pending' := by
  cases a with
  | transmit fault id width height pixelData => exact h.transmits hfree hs
  | flush written =>
    obtain rfl := Option.some.inj hs
    exact ⟨pending, h.flushes written⟩
  | read => exact h.reads hfree hs

theorem Pending.of_reachable (hfree : ∀ n, objects (shmName pid n) = none)
    (h : Reachable (ShmLink.step pid) { objects } s) : ∃ pending, Pending pid objects s pending :=
  h.invariant (P := fun s => ∃ pending, Pending pid objects s pending)
    (fun _ _ _ ⟨_, hpending⟩ hs => hpending.step hfree hs) ⟨[], pending_init pid objects⟩

/--
The object of the second transmission is taken away again, the command of the third cannot be
written, and that of the fourth is cut off behind 20 bytes. The terminal then reads one of two
images.
-/
def failedSecond : List Action :=
  [.transmit none 1 2 1 [0x010203, 0x040506], .transmit (some .ftruncate) 2 1 1 [0x070809],
    .transmit (some (.writeAll 0)) 1 1 1 [0x070809],
    .transmit (some (.flush 20)) 2 1 1 [0x0a0b0c], .read]

end ShmLink

end Meshconf.Terminal
