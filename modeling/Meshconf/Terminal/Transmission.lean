import Meshconf.Terminal.Kitty

/-! # Transmission of an image

The sequences that are written parse as commands whose payloads are the chunks of the
base64 text. Only the first has the keys of the image, and only the last says that no
more follows.
-/

namespace Meshconf.Terminal

open Pieces

/-! ## Decimal numbers -/

theorem decimal_digits {n : ℕ} {b : UInt8} (hb : b ∈ decimal n) :
    ∃ d < 10, b = UInt8.ofNat (48 + d) := by
  unfold decimal at hb
  split_ifs at hb with hn
  · exact ⟨0, by decide, List.mem_singleton.mp hb⟩
  · obtain ⟨d, hd, rfl⟩ := List.mem_map.mp hb
    exact ⟨d, Nat.digits_lt_base (by decide) (List.mem_reverse.mp hd), rfl⟩

/-- A digit is neither a separator nor a control character. -/
theorem notMem_decimal {n : ℕ} {b : UInt8} (hb : ∀ d < 10, b ≠ UInt8.ofNat (48 + d)) :
    b ∉ decimal n := by
  intro hmem
  obtain ⟨d, hd, heq⟩ := decimal_digits hmem
  exact hb d hd heq

/-- Decimal numbers are read back. -/
theorem number_decimal (n : ℕ) : number (decimal n) = n := by
  have hfold : ∀ ds : List ℕ, (∀ d ∈ ds, d < 10) →
      number (ds.reverse.map fun d => UInt8.ofNat (48 + d)) = Nat.ofDigits 10 ds := by
    intro ds hds
    induction ds with
    | nil => rfl
    | cons d ds ih =>
      have hd : d < 10 := hds d List.mem_cons_self
      have hrest := ih fun x hx => hds x (List.mem_cons_of_mem d hx)
      unfold number at hrest ⊢
      have hbyte : (UInt8.ofNat (48 + d)).toNat = 48 + d := by
        rw [UInt8.toNat_ofNat']
        exact Nat.mod_eq_of_lt (by omega)
      rw [List.reverse_cons, List.map_append, List.foldl_append, hrest, List.map_cons, List.map_nil,
        List.foldl_cons, List.foldl_nil, hbyte, Nat.ofDigits_cons, Nat.add_sub_cancel_left]
      omega
  unfold decimal
  split_ifs with hn
  · subst hn
    rfl
  · rw [hfold _ fun d hd => Nat.digits_lt_base (by decide) hd, Nat.ofDigits_digits]

/-! ## Keys -/

def controlText (keys : List (List UInt8 × List UInt8)) : List UInt8 :=
  join 44 (keys.map fun k => k.1 ++ 61 :: k.2)

theorem mapM_parseKey {keys : List (List UInt8 × List UInt8)} (hkeys : ∀ k ∈ keys, 61 ∉ k.1) :
    (keys.map fun k => k.1 ++ 61 :: k.2).mapM parseKey = some keys := by
  induction keys with
  | nil => rfl
  | cons k keys ih =>
    have hk : parseKey (k.1 ++ 61 :: k.2) = some k := cut_append (hkeys k List.mem_cons_self)
    rw [List.map_cons, List.mapM_cons, hk, ih fun k' hk' => hkeys k' (List.mem_cons_of_mem k hk')]
    rfl

theorem parseKeys_controlText {keys : List (List UInt8 × List UInt8)} (hne : keys ≠ [])
    (hname : ∀ k ∈ keys, 61 ∉ k.1) (hcomma : ∀ k ∈ keys, 44 ∉ k.1 ∧ 44 ∉ k.2) :
    parseKeys (controlText keys) = some keys := by
  unfold parseKeys controlText
  rw [splitAt_join]
  · exact mapM_parseKey hname
  · simpa using hne
  · intro w hw
    obtain ⟨k, hk, rfl⟩ := List.mem_map.mp hw
    simp [hcomma k hk]
  · exact length_le_join _ _

/-- The keys that describe the image. -/
def imageKeys (id width height : ℕ) : List (List UInt8 × List UInt8) :=
  [(ascii "i", decimal id), (ascii "s", decimal width), (ascii "v", decimal height),
    (ascii "a", ascii "t"), (ascii "f", ascii "24"), (ascii "o", ascii "z"),
    (ascii "t", ascii "d"), (ascii "q", ascii "2")]

/-- The keys of the sequence with number `i` out of `n`. -/
def sequenceKeys (id width height n i : ℕ) : List (List UInt8 × List UInt8) :=
  (if i = 0 then imageKeys id width height else []) ++
    [(ascii "m", if i = n - 1 then ascii "0" else ascii "1")]

theorem escapeSequence_eq (id width height n : ℕ) (chunk : List UInt8) (i : ℕ) :
    escapeSequence id width height n chunk i =
      0x1b :: 95 :: 71 :: (controlText (sequenceKeys id width height n i) ++
        59 :: (chunk ++ esc :: [92])) := by
  unfold escapeSequence controlText sequenceKeys imageKeys
  split_ifs <;> simp [ascii, join, esc]

/-- No comma, no semicolon and no equals sign. -/
def Plain (word : List UInt8) : Prop := 44 ∉ word ∧ 59 ∉ word ∧ 61 ∉ word

instance (word : List UInt8) : Decidable (Plain word) := inferInstanceAs (Decidable (_ ∧ _ ∧ _))

theorem plain_decimal (n : ℕ) : Plain (decimal n) :=
  ⟨notMem_decimal (by decide), notMem_decimal (by decide), notMem_decimal (by decide)⟩

theorem plain_imageKeys {id width height : ℕ} {k : List UInt8 × List UInt8}
    (hk : k ∈ imageKeys id width height) : Plain k.1 ∧ Plain k.2 := by
  simp only [imageKeys, List.mem_cons, List.not_mem_nil, or_false] at hk
  rcases hk with rfl | rfl | rfl | rfl | rfl | rfl | rfl | rfl
  · exact ⟨(by decide : Plain (ascii "i")), plain_decimal id⟩
  · exact ⟨(by decide : Plain (ascii "s")), plain_decimal width⟩
  · exact ⟨(by decide : Plain (ascii "v")), plain_decimal height⟩
  all_goals decide

theorem plain_sequenceKeys {id width height n i : ℕ} {k : List UInt8 × List UInt8}
    (hk : k ∈ sequenceKeys id width height n i) : Plain k.1 ∧ Plain k.2 := by
  rcases List.mem_append.mp hk with hk | hk
  · split_ifs at hk
    · exact plain_imageKeys hk
    · cases hk
  · obtain rfl := List.mem_singleton.mp hk
    split_ifs <;> decide

theorem notMem_controlText {keys : List (List UInt8 × List UInt8)}
    (hkeys : ∀ k ∈ keys, Plain k.1 ∧ Plain k.2) : 59 ∉ controlText keys := by
  refine notMem_join (by decide) fun w hw => ?_
  obtain ⟨k, hk, rfl⟩ := List.mem_map.mp hw
  obtain ⟨hname, hvalue⟩ := hkeys k hk
  simp [hname.2.1, hvalue.2.1]

/-- The terminal reads back the keys and the payload of a sequence. -/
theorem parseCommand_controlText {keys : List (List UInt8 × List UInt8)} (hne : keys ≠ [])
    (hplain : ∀ k ∈ keys, Plain k.1 ∧ Plain k.2) {payload : List UInt8} (hpayload : esc ∉ payload)
    (rest : List UInt8) :
    parseCommand (0x1b :: 95 :: 71 :: (controlText keys ++ 59 :: (payload ++ esc :: [92])) ++ rest) =
      some (⟨keys, payload⟩, rest) := by
  have hkeys : parseKeys (controlText keys) = some keys :=
    parseKeys_controlText hne (fun k hk => (hplain k hk).1.2.2)
      fun k hk => ⟨(hplain k hk).1.1, (hplain k hk).2.1⟩
  have hcontrol : cut 59 (controlText keys ++ 59 :: (payload ++ esc :: 92 :: rest)) =
      some (_, payload ++ esc :: 92 :: rest) := cut_append (notMem_controlText hplain)
  have hcut : cut esc (payload ++ esc :: 92 :: rest) = some (payload, 92 :: rest) :=
    cut_append hpayload
  simp only [List.cons_append, List.append_assoc, List.nil_append, parseCommand, hcontrol, hkeys,
    hcut, Option.bind_eq_bind, Option.bind_some, Option.pure_def]

/-- A command that has been read is not changed by what comes later. -/
theorem parseCommand_append {bytes rest : List UInt8} {cmd : Command}
    (h : parseCommand bytes = some (cmd, rest)) (more : List UInt8) :
    parseCommand (bytes ++ more) = some (cmd, rest ++ more) := by
  unfold parseCommand at h
  split at h
  next bytes =>
    obtain ⟨⟨control, behind⟩, hcontrol, h⟩ := Option.bind_eq_some_iff.mp h
    obtain ⟨keys, hkeys, h⟩ := Option.bind_eq_some_iff.mp h
    obtain ⟨⟨payload, last⟩, hpayload, h⟩ := Option.bind_eq_some_iff.mp h
    dsimp only at hkeys hpayload h
    split at h
    next last =>
      cases h
      simp only [List.cons_append, parseCommand, cut_append_right hcontrol more, hkeys,
        cut_append_right hpayload more, Option.bind_eq_bind, Option.bind_some, Option.pure_def]
    next => cases h
  next => cases h

/-- The terminal reads back what a sequence says. -/
theorem parseCommand_escapeSequence {id width height n i : ℕ} {chunk : List UInt8}
    (hchunk : esc ∉ chunk) (rest : List UInt8) :
    parseCommand (escapeSequence id width height n chunk i ++ rest) =
      some (⟨sequenceKeys id width height n i, chunk⟩, rest) := by
  have hne : sequenceKeys id width height n i ≠ [] :=
    List.append_ne_nil_of_right_ne_nil _ (List.cons_ne_nil _ _)
  rw [escapeSequence_eq]
  exact parseCommand_controlText hne (fun k => plain_sequenceKeys) hchunk rest

/-! ## All sequences -/

/-- The characters of base64. -/
def base64Alphabet : List UInt8 :=
  ascii "ABCDEFGHIJKLMNOPQRSTUVWXYZabcdefghijklmnopqrstuvwxyz0123456789+/="

/-- What the libraries promise: zlib output is never empty, base64 has padded groups of four. -/
structure Documented (e : Engine) : Prop where
  compress_ne_nil : ∀ data, e.compress data ≠ []
  length_encode : ∀ data, (e.encode data).length = 4 * ((data.length + 2) / 3)
  alphabet : ∀ data, ∀ b ∈ e.encode data, b ∈ base64Alphabet

variable {e : Engine}

/-- The staging buffer is always large enough. -/
theorem Documented.length_encode_le (he : Documented e) (data : List UInt8) :
    (e.encode data).length ≤ data.length * 4 / 3 + 4 := by
  rw [he.length_encode]
  omega

theorem Documented.esc_notMem (he : Documented e) (data : List UInt8) : esc ∉ e.encode data := by
  intro hmem
  have halphabet : esc ∉ base64Alphabet := by decide
  exact halphabet (he.alphabet data esc hmem)

theorem Documented.encode_ne_nil (he : Documented e) {data : List UInt8} (hdata : data ≠ []) :
    e.encode data ≠ [] := by
  have hpos := List.length_pos_iff.mpr hdata
  have hlen := he.length_encode data
  rw [← List.length_pos_iff]
  omega

/-- The sequences of a text, and the commands that they say. -/
def sequences (id width height : ℕ) (text : List UInt8) : List UInt8 :=
  (chunks chunkSize text).zipIdx.flatMap fun c =>
    escapeSequence id width height (chunkCount text.length chunkSize) c.1 c.2

def commands (id width height : ℕ) (text : List UInt8) : List Command :=
  (chunks chunkSize text).zipIdx.map fun c =>
    ⟨sequenceKeys id width height (chunkCount text.length chunkSize) c.2, c.1⟩

theorem parse_sequences {id width height : ℕ} {text : List UInt8} (htext : esc ∉ text) :
    parse (sequences id width height text) = some (commands id width height text) := by
  have hne : ∀ c ∈ (chunks chunkSize text).zipIdx,
      escapeSequence id width height (chunkCount text.length chunkSize) c.1 c.2 ≠ [] := by
    intro c _
    rw [escapeSequence_eq]
    exact List.cons_ne_nil _ _
  refine parseMany_flatMap (fun c hc rest => ?_) hne (length_le_length_flatMap hne)
  have hmem : c.1 ∈ chunks chunkSize text := List.fst_mem_of_mem_zipIdx hc
  exact parseCommand_escapeSequence (fun h => htext (mem_of_mem_chunks hmem h)) rest

/-- Commands that carry an image, with `text` as its contents. -/
structure Reassembles (id width height : ℕ) (text : List UInt8) (cmds : List Command) : Prop where
  ne_nil : cmds ≠ []
  keys : ∀ i cmd, cmds[i]? = some cmd → cmd.keys =
    (if i = 0 then imageKeys id width height else []) ++
      [(ascii "m", if i + 1 = cmds.length then ascii "0" else ascii "1")]
  size : ∀ cmd ∈ cmds, cmd.payload.length ≤ 4096
  aligned : ∀ i cmd, cmds[i]? = some cmd → i + 1 < cmds.length → 4 ∣ cmd.payload.length
  payload : cmds.flatMap (·.payload) = text

theorem length_commands {id width height : ℕ} {text : List UInt8} :
    (commands id width height text).length = chunkCount text.length chunkSize := by
  rw [commands, List.length_map, List.length_zipIdx, length_chunks]

/-- A command and the chunk that is its payload. -/
theorem getElem?_commands {id width height i : ℕ} {text : List UInt8} {cmd : Command}
    (h : (commands id width height text)[i]? = some cmd) :
    (chunks chunkSize text)[i]? = some cmd.payload ∧
      cmd.keys = sequenceKeys id width height (chunkCount text.length chunkSize) i := by
  rw [commands, List.getElem?_map, List.getElem?_zipIdx] at h
  cases hc : (chunks chunkSize text)[i]? with
  | none => simp [hc] at h
  | some c =>
    simp only [hc, Option.map_some, Nat.zero_add, Option.some.injEq] at h
    subst h
    exact ⟨rfl, rfl⟩

theorem commands_reassemble {id width height : ℕ} {text : List UInt8} (htext : text ≠ []) :
    Reassembles id width height text (commands id width height text) where
  ne_nil := by
    intro hnil
    have hlen : chunkCount text.length chunkSize = 0 := by
      rw [← length_commands, hnil, List.length_nil]
    have hle := le_chunkCount_mul (n := chunkSize) (by decide) text.length
    rw [hlen, Nat.zero_mul] at hle
    exact htext (List.length_eq_zero_iff.mp (Nat.le_zero.mp hle))
  keys i cmd h := by
    have hlt := (List.getElem?_eq_some_iff.mp h).1
    rw [length_commands] at hlt ⊢
    have hlast : (i = chunkCount text.length chunkSize - 1) =
        (i + 1 = chunkCount text.length chunkSize) := propext (by omega)
    rw [(getElem?_commands h).2, sequenceKeys]
    simp only [hlast]
  size cmd hcmd := by
    obtain ⟨i, hi⟩ := List.mem_iff_getElem?.mp hcmd
    exact length_le_of_mem_chunks (List.mem_of_getElem? (getElem?_commands hi).1)
  aligned i cmd h hlast := by
    rw [length_commands] at hlast
    rw [length_of_not_last (getElem?_commands h).1 hlast]
    decide
  payload := by
    have hmap : (commands id width height text).map (·.payload) = chunks chunkSize text := by
      rw [commands, List.map_map]
      exact List.zipIdx_map_fst 0 _
    rw [List.flatMap_def, hmap]
    exact flatten_chunks (by decide) text

/-- The rows of an image. -/
def rows (width height : ℕ) (pixelData : List UInt32) : List (List UInt32) :=
  (List.range height).map fun y => (pixelData.drop (y * width)).take width

theorem flatten_rows (width height : ℕ) (pixelData : List UInt32) :
    (rows width height pixelData).flatten = pixelData.take (width * height) := by
  rw [rows, flatten_pieces, Nat.mul_comm]

/-- What is written depends on the image alone. -/
theorem transmitImagePty_eq (he : Documented e) {id width height : ℕ} {pixelData : List UInt32}
    (scratch : TransmitScratch) (harea : width * height < 2 ^ 32)
    (hdata : width * height ≤ pixelData.length) {zlib text : List UInt8}
    (hzlib : zlib = e.compress ((rows width height pixelData).flatten.flatMap rgb))
    (htext : text = e.encode zlib) :
    transmitImagePty e id width height pixelData scratch =
      .ok ({ rgbData := text, cmdBuf := sequences id width height text, zlibBuf := zlib },
        sequences id width height text) := by
  rw [flatten_rows] at hzlib
  have hconvert : convertToRgb24 pixelData (width * height % 2 ^ 32) scratch =
      .ok { scratch with rgbData := (pixelData.take (width * height)).flatMap rgb } := by
    rw [Nat.mod_eq_of_lt harea]
    exact if_pos hdata
  have hencode : encodeSlice e zlib (List.replicate (zlib.length * 4 / 3 + 4) 0) =
      .ok (text ++ (List.replicate (zlib.length * 4 / 3 + 4) 0).drop text.length, text.length) := by
    rw [htext]
    refine if_pos ?_
    rw [List.length_replicate]
    exact he.length_encode_le zlib
  unfold transmitImagePty
  simp only [hconvert, bind, Except.bind, ← hzlib, hencode, List.take_left, List.take_length,
    ← List.flatMap_eq_foldl]
  rfl

/--
Whatever the buffers held before, what is written parses as the commands of the image: together
they carry the base64 text of its compressed bytes.
-/
theorem transmitImagePty_reassembles (he : Documented e) {id width height : ℕ}
    {pixelData : List UInt32} {scratch : TransmitScratch} (harea : width * height < 2 ^ 32)
    (hdata : width * height ≤ pixelData.length) :
    let zlib := e.compress ((rows width height pixelData).flatten.flatMap rgb)
    (e.encode zlib).length ≤ zlib.length * 4 / 3 + 4 ∧
      ∃ scratch' out cmds,
        transmitImagePty e id width height pixelData scratch = .ok (scratch', out) ∧
        parse out = some cmds ∧ Reassembles id width height (e.encode zlib) cmds := by
  intro zlib
  have htext : e.encode zlib ≠ [] := he.encode_ne_nil (he.compress_ne_nil _)
  exact ⟨he.length_encode_le zlib, _, _, _, transmitImagePty_eq he scratch harea hdata rfl rfl,
    parse_sequences (he.esc_notMem zlib), commands_reassemble htext⟩

/-! ## A black picture -/

/-- The character of six bits. -/
def base64Char (n : ℕ) : UInt8 := base64Alphabet.getD (n % 64) 61

/-- Base64 with padding. -/
def base64 : List UInt8 → List UInt8
  | [] => []
  | [a] =>
    let n := a.toNat * 16
    [base64Char (n / 64), base64Char n, 61, 61]
  | [a, b] =>
    let n := (a.toNat * 256 + b.toNat) * 4
    [base64Char (n / 4096), base64Char (n / 64), base64Char n, 61]
  | a :: b :: c :: data =>
    let n := (a.toNat * 256 + b.toNat) * 256 + c.toNat
    base64Char (n / 262144) :: base64Char (n / 4096) :: base64Char (n / 64) :: base64Char n ::
      base64 data

theorem base64Char_mem (n : ℕ) : base64Char n ∈ base64Alphabet := by
  have hlt : n % 64 < base64Alphabet.length :=
    Nat.lt_of_lt_of_le (Nat.mod_lt n (by decide)) (by decide)
  rw [base64Char, List.getD_eq_getElem?_getD, List.getElem?_eq_getElem hlt]
  exact List.getElem_mem hlt

theorem length_base64 (data : List UInt8) :
    (base64 data).length = 4 * ((data.length + 2) / 3) := by
  induction data using base64.induct with
  | case1 => rfl
  | case2 a => simp [base64]
  | case3 a b => simp [base64]
  | case4 a b c data ih =>
    simp only [base64, List.length_cons, ih]
    omega

theorem base64_alphabet {data : List UInt8} {b : UInt8} (hb : b ∈ base64 data) :
    b ∈ base64Alphabet := by
  have hpad : (61 : UInt8) ∈ base64Alphabet := by decide
  induction data using base64.induct with
  | case1 => cases hb
  | case2 a =>
    simp only [base64, List.mem_cons, List.not_mem_nil, or_false] at hb
    rcases hb with rfl | rfl | rfl | rfl
    exacts [base64Char_mem _, base64Char_mem _, hpad, hpad]
  | case3 a b =>
    simp only [base64, List.mem_cons, List.not_mem_nil, or_false] at hb
    rcases hb with rfl | rfl | rfl | rfl
    exacts [base64Char_mem _, base64Char_mem _, base64Char_mem _, hpad]
  | case4 a b c data ih =>
    simp only [base64, List.mem_cons] at hb
    rcases hb with rfl | rfl | rfl | rfl | hb
    exacts [base64Char_mem _, base64Char_mem _, base64Char_mem _, base64Char_mem _, ih hb]

/-- Base64, and the zlib stream of 48 zeros. -/
def blackEngine : Engine where
  compress := fun _ => [120, 1, 99, 96, 32, 13, 0, 0, 0, 48, 0, 1]
  encode := base64

theorem documented_blackEngine : Documented blackEngine where
  compress_ne_nil _ := List.cons_ne_nil _ _
  length_encode := length_base64
  alphabet _ _ := base64_alphabet

/-- A black picture of four by four pixels, from buffers that hold something else. -/
theorem transmitImagePty_reassembles_black : ∃ scratch' out cmds,
    transmitImagePty blackEngine 7 4 4 (List.replicate 16 0) ⟨[1], [2, 3], [4]⟩ =
        .ok (scratch', out) ∧
      parse out = some cmds ∧ Reassembles 7 4 4 (ascii "eAFjYCANAAAAMAAB") cmds := by
  have hdata : 4 * 4 ≤ (List.replicate 16 (0 : UInt32)).length := by decide
  obtain ⟨-, scratch', out, cmds, hout, hparse, hcmds⟩ :=
    transmitImagePty_reassembles documented_blackEngine (by decide) hdata
  exact ⟨scratch', out, cmds, hout, hparse, hcmds⟩

end Meshconf.Terminal
