import Lox.Proofs.Pieces

/-! The cursor against the characters it passes: wherever a round starts, it starts between two
characters, takes the bytes of exactly one piece and ends between two characters, so no scan
breaks off. -/

namespace Lox

/-- The bytes of a text, character by character. -/
def encoded (cs : List Char) : List UInt8 := cs.flatMap String.utf8EncodeChar

@[simp] theorem encoded_nil : encoded [] = [] := rfl

@[simp] theorem encoded_cons (c : Char) (cs : List Char) :
    encoded (c :: cs) = String.utf8EncodeChar c ++ encoded cs := rfl

@[simp] theorem encoded_append (cs ds : List Char) :
    encoded (cs ++ ds) = encoded cs ++ encoded ds :=
  List.flatMap_append

theorem utf8Encode_eq_encoded (cs : List Char) : cs.utf8Encode.data.toList = encoded cs := by
  rw [List.utf8Encode, List.toList_data_toByteArray]
  rfl

section Encoding

variable {c d : Char} {b : UInt8}

theorem utf8EncodeChar_ascii (ascii : c.toNat < 128) : String.utf8EncodeChar c = [c.toUInt8] := by
  have size : c.utf8Size = 1 := by
    rw [Char.utf8Size_eq_one_iff, UInt32.le_iff_toNat_le]
    exact Nat.le_of_lt_succ ascii
  exact String.utf8EncodeChar_eq_singleton size

theorem length_encoded_ascii (ascii : c.toNat < 128) (cs : List Char) :
    (encoded (c :: cs)).length = 1 + (encoded cs).length := by
  rw [encoded_cons, utf8EncodeChar_ascii ascii]
  exact Nat.add_comm ..

/-- No byte of a character beyond ASCII is an ASCII byte. -/
theorem le_of_mem_utf8EncodeChar (wide : 128 ≤ c.toNat) (member : b ∈ String.utf8EncodeChar c) :
    128 ≤ b.toNat := by
  have large {n : Nat} (low : 128 ≤ n) (high : n < 256) : 128 ≤ (UInt8.ofNat n).toNat := by
    rwa [UInt8.toNat_ofNat', Nat.mod_eq_of_lt high]
  unfold String.utf8EncodeChar at member
  change 128 ≤ c.val.toNat at wide
  generalize c.val.toNat = v at wide member
  dsimp only at member
  rw [if_neg (by omega)] at member
  split at member
  · simp only [List.mem_cons, List.not_mem_nil, or_false] at member
    obtain rfl | rfl := member <;> exact large (by omega) (by omega)
  split at member
  · simp only [List.mem_cons, List.not_mem_nil, or_false] at member
    obtain rfl | rfl | rfl := member <;> exact large (by omega) (by omega)
  · simp only [List.mem_cons, List.not_mem_nil, or_false] at member
    obtain rfl | rfl | rfl | rfl := member <;> exact large (by omega) (by omega)

theorem toNat_ofUInt8 (b : UInt8) : (Char.ofUInt8 b).toNat = b.toNat := by
  change b.toUInt32.toNat = b.toNat
  exact UInt8.toNat_toUInt32 b

theorem toNat_toUInt8 (ascii : c.toNat < 128) : c.toUInt8.toNat = c.toNat := by
  change c.val.toUInt8.toNat = c.val.toNat
  change c.val.toNat < 128 at ascii
  rw [UInt32.toNat_toUInt8]
  omega

theorem ofUInt8_toUInt8 (ascii : c.toNat < 128) : Char.ofUInt8 c.toUInt8 = c := by
  apply Char.toNat_inj.mp
  rw [toNat_ofUInt8, toNat_toUInt8 ascii]

theorem toUInt8_inj (ascii : c.toNat < 128) (ascii' : d.toNat < 128) :
    c.toUInt8 = d.toUInt8 ↔ c = d := by
  constructor
  · intro same
    rw [← ofUInt8_toUInt8 ascii, same, ofUInt8_toUInt8 ascii']
  · rintro rfl
    rfl

theorem mem_utf8EncodeChar_ascii (ascii : d.toNat < 128) :
    d.toUInt8 ∈ String.utf8EncodeChar c ↔ c = d := by
  by_cases narrow : c.toNat < 128
  · rw [utf8EncodeChar_ascii narrow, List.mem_singleton, toUInt8_inj ascii narrow]
    exact eq_comm
  · constructor
    · intro member
      have := le_of_mem_utf8EncodeChar (by omega) member
      rw [toNat_toUInt8 ascii] at this
      omega
    · rintro rfl
      exact absurd ascii narrow

/-- An ASCII character is a single byte, and no other character has that byte. -/
theorem count_encoded (ascii : d.toNat < 128) (cs : List Char) :
    (encoded cs).count d.toUInt8 = cs.count d := by
  induction cs with
  | nil => rfl
  | cons c cs ih =>
    rw [encoded_cons, List.count_append, ih, List.count_cons, Nat.add_comm]
    congr 1
    by_cases same : c = d
    · subst same
      simp [utf8EncodeChar_ascii ascii]
    · rw [if_neg (by simpa using same), List.count_eq_zero, mem_utf8EncodeChar_ascii ascii]
      exact same

theorem findIdx?_encoded_absent (ascii : d.toNat < 128) (absent : d ∉ cs) :
    (encoded cs).findIdx? (· == d.toUInt8) = none := by
  rw [List.findIdx?_eq_none_iff]
  intro b member
  rw [beq_eq_false_iff_ne]
  rintro rfl
  obtain ⟨c, among, inside⟩ := List.mem_flatMap.mp member
  rw [(mem_utf8EncodeChar_ascii ascii).mp inside] at among
  exact absent among

theorem findIdx?_encoded_until (ascii : d.toNat < 128) (absent : d ∉ cs) (rest : List Char) :
    (encoded (cs ++ d :: rest)).findIdx? (· == d.toUInt8) = some (encoded cs).length := by
  rw [encoded_append, List.findIdx?_append, findIdx?_encoded_absent ascii absent, encoded_cons,
    utf8EncodeChar_ascii ascii, List.singleton_append, List.findIdx?_cons]
  simp

/-- The first byte of a character beyond ASCII is no ASCII character either. -/
theorem first_wide (wide : 128 ≤ c.toNat) (bytes : String.utf8EncodeChar c = b :: tail) :
    128 ≤ (Char.ofUInt8 b).toNat := by
  rw [toNat_ofUInt8]
  apply le_of_mem_utf8EncodeChar wide
  rw [bytes]
  exact List.mem_cons_self ..

/-- A class of characters within ASCII. -/
def Narrow (p : Char → Bool) : Prop := ∀ c, p c → c.toNat < 128

theorem Narrow.outside (narrow : Narrow p) (wide : 128 ≤ c.toNat) : p c = false := by
  apply Bool.eq_false_iff.mpr
  intro inside
  exact absurd (narrow c inside) (Nat.not_lt.mpr wide)

/-- The first byte of a character is in such a class if the character is. -/
theorem Narrow.first (narrow : Narrow p) (bytes : String.utf8EncodeChar c = b :: tail) :
    p (.ofUInt8 b) = p c := by
  by_cases ascii : c.toNat < 128
  · rw [utf8EncodeChar_ascii ascii] at bytes
    cases bytes
    rw [ofUInt8_toUInt8 ascii]
  · have wide := Nat.le_of_not_lt ascii
    rw [narrow.outside (first_wide wide bytes), narrow.outside wide]

theorem utf8EncodeChar_ne_nil (c : Char) : ∃ b tail, String.utf8EncodeChar c = b :: tail := by
  cases bytes : String.utf8EncodeChar c with
  | nil =>
    have size := c.utf8Size_pos
    rw [← String.length_utf8EncodeChar, bytes] at size
    cases size
  | cons b tail => exact ⟨b, tail, rfl⟩

end Encoding

namespace ByteCursor

/-- The cursor stands between two parts of its text. -/
structure At (s : ByteCursor) (before after : List Char) : Prop where
  text : s.text = String.ofList (before ++ after)
  pos : s.pos = (encoded before).length

theorem At.toList (at_ : At s before after) :
    s.bytes.data.toList = encoded before ++ encoded after := by
  unfold bytes
  rw [at_.text, String.toUTF8_eq_toByteArray, String.toByteArray_ofList, utf8Encode_eq_encoded,
    encoded_append]

theorem At.size (at_ : At s before after) : s.bytes.size = s.pos + (encoded after).length := by
  rw [← ByteArray.size_data, ← Array.length_toList, at_.toList, List.length_append, at_.pos]

theorem At.byte (at_ : At s before after) (k : Nat) :
    s.bytes[s.pos + k]? = (encoded after)[k]? := by
  have listed (bytes : ByteArray) (i : Nat) : bytes[i]? = bytes.data.toList[i]? := by
    by_cases within : i < bytes.size
    · simp [within, ByteArray.getElem_eq_getElem_data]
    · simp [Nat.le_of_not_lt within]
  rw [listed, at_.toList, at_.pos, List.getElem?_append_right (Nat.le_add_right ..),
    Nat.add_sub_cancel_left]

theorem At.look (at_ : At s before after) (k : Nat) :
    s.look k = (encoded after)[k]?.getD 0 := by
  unfold ByteCursor.look
  rw [at_.byte]

theorem At.skip (taken : List Char) (at_ : At s before (taken ++ after)) :
    At (s.skip (encoded taken).length) (before ++ taken) after := by
  constructor
  · rw [List.append_assoc]
    exact at_.text
  · rw [encoded_append, List.length_append, ← at_.pos]
    rfl

theorem At.rest (at_ : At s before after) : rest s = .ok (encoded after) s := by
  have within : s.pos ≤ s.bytes.size := by
    rw [at_.size]
    exact Nat.le_add_right ..
  rw [rest_eq, if_pos within, at_.toList, at_.pos, List.drop_left]

theorem utf8ByteSize_ofList (cs : List Char) :
    (String.ofList cs).utf8ByteSize = (encoded cs).length := by
  rw [← String.size_toByteArray, String.toByteArray_ofList, ← ByteArray.size_data,
    ← Array.length_toList, utf8Encode_eq_encoded]

/-- The place after a first part of a text lies between two characters. -/
theorem isValid_after (before after : List Char) :
    String.Pos.Raw.IsValid (String.ofList (before ++ after)) ⟨(encoded before).length⟩ := by
  rw [String.Pos.Raw.isValid_iff_exists_append]
  refine ⟨String.ofList before, String.ofList after, String.ofList_append, ?_⟩
  rw [← utf8ByteSize_ofList]
  rfl

theorem stretch?_middle (before taken after : List Char) :
    stretch? (String.ofList (before ++ (taken ++ after))) (encoded before).length
      ((encoded before).length + (encoded taken).length) = some (String.ofList taken) := by
  have stop := isValid_after (before ++ taken) after
  rw [encoded_append, List.length_append, List.append_assoc] at stop
  rw [stretch?, dif_pos ⟨isValid_after .., stop, Nat.le_add_right ..⟩]
  apply congrArg some
  apply String.toByteArray_inj.mp
  apply ByteArray.ext
  apply Array.toList_inj.mp
  rw [String.toByteArray_ofList, utf8Encode_eq_encoded]
  change (ByteArray.extract _ _ _).data.toList = _
  rw [ByteArray.data_extract, Array.toList_extract, String.toByteArray_ofList,
    utf8Encode_eq_encoded]
  simp [List.extract_eq_take_drop]

theorem At.stretch (at_ : At s before (taken ++ after)) :
    stretch s.pos (s.pos + (encoded taken).length) s = .ok (String.ofList taken) s := by
  rw [stretch_eq, at_.text, at_.pos, stretch?_middle]

theorem At.nextLine (count : Nat) (at_ : At s before after) : At (s.nextLine count) before after :=
  ⟨at_.text, at_.pos⟩

@[simp] theorem skip_skip (s : ByteCursor) (m n : Nat) : (s.skip m).skip n = s.skip (m + n) := by
  simp only [ByteCursor.skip, Nat.add_assoc]

theorem At.skipWhile (narrow : Narrow p) (at_ : At s before after) :
    s.skipWhile p = s.skip (encoded (after.takeWhile p)).length := by
  induction after generalizing s before with
  | nil =>
    rw [ByteCursor.skipWhile, if_neg]
    · rfl
    · intro more
      exact absurd more.1 (by simp [at_.size])
  | cons c after ih =>
    obtain ⟨b, tail, bytes⟩ := utf8EncodeChar_ne_nil c
    have first : p (.ofUInt8 (s.look 0)) = p c := by
      rw [at_.look, encoded_cons, bytes]
      exact narrow.first bytes
    by_cases inside : p c
    · have single := utf8EncodeChar_ascii (narrow c inside)
      have moved : At (s.skip 1) (before ++ [c]) after := by
        have moved := at_.skip [c]
        rwa [encoded_cons, single] at moved
      rw [ByteCursor.skipWhile, if_pos ⟨by simp [at_.size, single], first.trans inside⟩, ih moved,
        skip_skip, List.takeWhile_cons_of_pos inside, encoded_cons, single, List.length_append]
      rfl
    · rw [ByteCursor.skipWhile, if_neg (fun more => inside (first.symm.trans more.2)),
        List.takeWhile_cons_of_neg inside]
      rfl

/-- No place inside a character lies between two characters. -/
theorem At.isValid_iff (at_ : At s before (c :: after)) (low : 1 ≤ k) (high : k ≤ c.utf8Size) :
    String.Pos.Raw.IsValid s.text ⟨s.pos + k⟩ ↔ k = c.utf8Size := by
  constructor
  · intro valid
    rw [at_.text, String.ofList_append, String.Pos.Raw.isValid_append] at valid
    obtain valid | ⟨-, valid⟩ := valid
    · have := valid.le_utf8ByteSize
      rw [utf8ByteSize_ofList, ← at_.pos] at this
      simp only at this
      omega
    · rw [← List.singleton_append, String.ofList_append, String.Pos.Raw.isValid_append,
        ← String.singleton_eq_ofList, String.Pos.Raw.isValid_singleton] at valid
      have same : (String.Pos.Raw.mk (s.pos + k) - String.ofList before).byteIdx = k := by
        rw [String.Pos.Raw.byteIdx_sub_string, utf8ByteSize_ofList, ← at_.pos]
        exact Nat.add_sub_cancel_left ..
      obtain (zero | full) | ⟨beyond, -⟩ := valid
      · rw [zero] at same
        exact absurd low (by rw [← same]; decide)
      · exact same.symm.trans full
      · rw [String.Pos.Raw.le_iff, same, String.byteIdx_rawEndPos,
          String.utf8ByteSize_singleton] at beyond
        exact Nat.le_antisymm high beyond
  · rintro rfl
    have valid := isValid_after (before ++ [c]) after
    rw [List.append_assoc, List.singleton_append, ← at_.text] at valid
    rwa [encoded_append, List.length_append, ← at_.pos, encoded_cons, encoded_nil, List.append_nil,
      String.length_utf8EncodeChar] at valid

theorem At.skipToBoundary (at_ : At s before (c :: after)) (low : 1 ≤ k) (high : k ≤ c.utf8Size) :
    (s.skip k).skipToBoundary = s.skip c.utf8Size := by
  by_cases last : k = c.utf8Size
  · rw [ByteCursor.skipToBoundary, if_neg, last]
    intro inside
    exact inside.2 ((at_.isValid_iff low high).mpr last)
  · have within : s.pos + k < s.bytes.size := by
      rw [at_.size, encoded_cons, List.length_append, String.length_utf8EncodeChar]
      omega
    rw [ByteCursor.skipToBoundary,
      if_pos ⟨within, fun valid => last ((at_.isValid_iff low high).mp valid)⟩, skip_skip]
    exact at_.skipToBoundary (by omega) (by omega)
termination_by c.utf8Size - k

/-- What the cursor finds a piece to be, before its lexeme is cut out. -/
def result (piece : Scanner.Piece) : Except LexError (Option Kind) :=
  match piece.item with
  | none => .ok none
  | some (.error e) => .error e
  | some (.ok token) => .ok (some token.kind)

/-- The cursor after a piece that starts at it. -/
def past (s : ByteCursor) (piece : Scanner.Piece) : ByteCursor :=
  { s with pos := s.pos + (encoded piece.text).length, line := piece.line }

/-- The cursor stands at the first character of a piece, where its lexeme starts. -/
structure AtPiece (s : ByteCursor) (before : List Char) (c : Char) (after : List Char) : Prop
    extends At s before (c :: after) where
  start : s.start = s.pos

theorem AtPiece.lexeme (at_ : AtPiece s before c cs) (text : taken ++ after = c :: cs)
    (same : s'.text = s.text) (start : s'.start = s.start)
    (pos : s'.pos = s.pos + (encoded taken).length) :
    lexeme s' = .ok (String.ofList taken) s' := by
  change stretch s'.start s'.pos s' = _
  rw [stretch_eq, same, start, pos, at_.start, at_.text, at_.pos, ← text, stretch?_middle]

theorem AtPiece.lexeme_skip (at_ : AtPiece s before c cs) (text : taken ++ after = c :: cs) :
    ByteCursor.lexeme (s.skip (encoded taken).length) =
      .ok (String.ofList taken) (s.skip (encoded taken).length) :=
  at_.lexeme text rfl rfl rfl

theorem bind_of_ok {x : Scan α} {f : α → Scan β} (ran : x s = .ok a s') :
    (x >>= f) s = f a s' := by
  simp only [Bind.bind, EStateM.bind, ran]

/-- The cursor after a piece, by the bytes and the lines that the piece takes. -/
theorem past_eq {s : ByteCursor} {piece : Scanner.Piece}
    (size : (encoded piece.text).length = 1 + count) (line : piece.line = s.line + lines) :
    s.past piece = ((s.skip 1).nextLine lines).skip count := by
  simp only [past, size, line, ByteCursor.skip, ByteCursor.nextLine, Nat.add_assoc]

theorem past_eq_skip {s : ByteCursor} {piece : Scanner.Piece}
    (size : (encoded piece.text).length = count) (line : piece.line = s.line) :
    s.past piece = s.skip count := by
  rw [past, size, line]
  rfl

theorem AtPiece.scanString (at_ : AtPiece s before '"' cs) :
    (do return (← scanString).map some : Scan _) (s.skip 1) =
      .ok (result (Scanner.string s.line cs).1) (s.past (Scanner.string s.line cs).1) := by
  have inside : At (s.skip 1) (before ++ ['"']) cs := at_.toAt.skip ['"']
  unfold ByteCursor.scanString
  rw [bind_assoc, bind_of_ok inside.rest]
  by_cases closed : '"' ∈ cs
  · obtain ⟨contents, behind, rfl, unquoted⟩ := List.eq_append_cons_of_mem closed
    have lines : ((encoded (contents ++ '"' :: behind)).take (encoded contents).length).count
        '\n'.toUInt8 = contents.count '\n' := by
      rw [encoded_append, List.take_left, count_encoded (by decide)]
    have size : (encoded ('"' :: contents ++ ['"'])).length =
        1 + ((encoded contents).length + 1) := by
      rw [List.cons_append, length_encoded_ascii (by decide), encoded_append, List.length_append]
      rfl
    rw [Scanner.string_closed unquoted, findIdx?_encoded_until (by decide) unquoted,
      past_eq size rfl]
    simp only [bind_assoc, lines]
    change (stretch _ _ >>= _) (nextLine (contents.count '\n') (s.skip 1)) = _
    rw [bind_of_ok (inside.nextLine _).stretch]
    rfl
  · rw [Scanner.string_unclosed closed, findIdx?_encoded_absent (by decide) closed,
      past_eq (length_encoded_ascii (by decide) cs) rfl]
    dsimp only
    rw [count_encoded (by decide)]
    rfl

theorem At.look_end (at_ : At s before []) (k : Nat) : s.look k = 0 := by
  rw [at_.look]
  rfl

theorem At.look_first (at_ : At s before (c :: after)) (ascii : d.toNat < 128) :
    s.look 0 = d.toUInt8 ↔ c = d := by
  obtain ⟨b, tail, bytes⟩ := utf8EncodeChar_ne_nil c
  rw [at_.look, encoded_cons, bytes]
  change b = d.toUInt8 ↔ c = d
  constructor
  · rintro rfl
    rw [← mem_utf8EncodeChar_ascii ascii, bytes]
    exact List.mem_cons_self ..
  · rintro rfl
    rw [utf8EncodeChar_ascii ascii] at bytes
    cases bytes
    rfl

theorem narrow_isDigit : Narrow Scanner.isDigit := by
  intro c digit
  have within : '0' ≤ c ∧ c ≤ '9' := by simpa [Scanner.isDigit] using digit
  have : c.toNat ≤ 57 := within.2
  omega

theorem narrow_isWordRest : Narrow Scanner.isWordRest := by
  intro c rest
  simp only [Scanner.isWordRest, Scanner.isWordStart, Bool.or_eq_true, Bool.and_eq_true,
    decide_eq_true_eq, beq_iff_eq] at rest
  obtain ((lower | upper) | rfl) | digit := rest
  · have : c.toNat ≤ 122 := lower.2
    omega
  · have : c.toNat ≤ 90 := upper.2
    omega
  · decide
  · exact narrow_isDigit c digit

theorem At.isDigit_look (at_ : At s before ('.' :: d :: after)) :
    Scanner.isDigit (.ofUInt8 (s.look 1)) = Scanner.isDigit d := by
  obtain ⟨b, tail, bytes⟩ := utf8EncodeChar_ne_nil d
  rw [at_.look, encoded_cons, encoded_cons, bytes]
  exact narrow_isDigit.first bytes

/-- A point and the digits after it belong to a number if there is a digit. -/
theorem At.skipFraction (at_ : At s before ('.' :: d :: after)) (digit : Scanner.isDigit d) :
    s.skipFraction = s.skip (encoded ('.' :: d :: after.takeWhile Scanner.isDigit)).length := by
  have point : s.look 0 = '.'.toUInt8 := (at_.look_first (by decide)).mpr rfl
  have moved : At (s.skip 1) (before ++ ['.']) (d :: after) := at_.skip ['.']
  rw [ByteCursor.skipFraction, if_pos ⟨point, at_.isDigit_look.trans digit⟩,
    moved.skipWhile narrow_isDigit, skip_skip, List.takeWhile_cons_of_pos digit,
    ← length_encoded_ascii (show '.'.toNat < 128 by decide)]

theorem At.skipFraction_none (at_ : At s before after)
    (none : ∀ d rest, after = '.' :: d :: rest → Scanner.isDigit d = false) :
    s.skipFraction = s := by
  rw [ByteCursor.skipFraction, if_neg]
  rintro ⟨point, digit⟩
  match after, at_, none with
  | [], at_, _ =>
    rw [at_.look_end] at point
    cases point
  | [c], at_, _ =>
    obtain rfl := (at_.look_first (by decide)).mp point
    rw [at_.look] at digit
    cases digit
  | c :: d :: rest, at_, none =>
    obtain rfl := (at_.look_first (by decide)).mp point
    rw [at_.isDigit_look, none d rest rfl] at digit
    cases digit

theorem AtPiece.second (at_ : AtPiece s before c cs) (ascii : c.toNat < 128) :
    At (s.skip 1) (before ++ [c]) cs := by
  have second := at_.toAt.skip [c]
  rwa [length_encoded_ascii ascii] at second

theorem AtPiece.scanNumber (at_ : AtPiece s before c cs) (digit : Scanner.isDigit c) :
    (do return .ok (some (← scanNumber)) : Scan _) (s.skip 1) =
      .ok (result (Scanner.number s.line c cs).1) (s.past (Scanner.number s.line c cs).1) := by
  have ascii := narrow_isDigit c digit
  have second := at_.second ascii
  have whole : At ((s.skip 1).skipWhile Scanner.isDigit)
      (before ++ [c] ++ cs.takeWhile Scanner.isDigit) (cs.dropWhile Scanner.isDigit) := by
    rw [second.skipWhile narrow_isDigit]
    apply At.skip
    rwa [List.takeWhile_append_dropWhile]
  have noPoint := Scanner.point_not_mem digit cs
  unfold ByteCursor.scanNumber
  simp only [bind_assoc]
  change (ByteCursor.lexeme >>= _) ((s.skip 1).skipWhile Scanner.isDigit).skipFraction = _
  rw [second.skipWhile narrow_isDigit, skip_skip, ← length_encoded_ascii ascii] at whole ⊢
  by_cases decimal : ∃ d rest, cs.dropWhile Scanner.isDigit = '.' :: d :: rest ∧ Scanner.isDigit d
  · obtain ⟨d, rest, behind, digit'⟩ := decimal
    have text : (c :: cs.takeWhile Scanner.isDigit ++ '.' :: d :: rest.takeWhile Scanner.isDigit) ++
        rest.dropWhile Scanner.isDigit = c :: cs := by
      have text := (Scanner.number_takes s.line c cs).text
      rwa [Scanner.number_decimal behind digit'] at text
    rw [behind] at whole
    rw [Scanner.number_decimal behind digit', whole.skipFraction digit', skip_skip,
      ← List.length_append, ← encoded_append, bind_of_ok (at_.lexeme_skip text)]
    simp only [Scanner.Piece.token, Scanner.numberOf_decimal noPoint]
    rfl
  · have behind : ∀ d rest, cs.dropWhile Scanner.isDigit = '.' :: d :: rest →
        Scanner.isDigit d = false := fun d rest same =>
      Bool.eq_false_iff.mpr fun digit' => decimal ⟨d, rest, same, digit'⟩
    have text : c :: cs.takeWhile Scanner.isDigit ++ cs.dropWhile Scanner.isDigit = c :: cs :=
      congrArg (c :: ·) List.takeWhile_append_dropWhile
    rw [Scanner.number_whole behind, whole.skipFraction_none behind,
      bind_of_ok (at_.lexeme_skip text)]
    simp only [Scanner.Piece.token, Scanner.numberOf_whole noPoint]
    rfl

theorem AtPiece.scanWord (at_ : AtPiece s before c cs) (start : Scanner.isWordStart c) :
    (do return .ok (some (← scanWord)) : Scan _) (s.skip 1) =
      .ok (result (Scanner.word s.line c cs).1) (s.past (Scanner.word s.line c cs).1) := by
  have ascii : c.toNat < 128 := narrow_isWordRest c (by simp [Scanner.isWordRest, start])
  have text : c :: cs.takeWhile Scanner.isWordRest ++ cs.dropWhile Scanner.isWordRest = c :: cs :=
    congrArg (c :: ·) List.takeWhile_append_dropWhile
  unfold ByteCursor.scanWord
  simp only [bind_assoc]
  change (ByteCursor.lexeme >>= _) ((s.skip 1).skipWhile Scanner.isWordRest) = _
  rw [(at_.second ascii).skipWhile narrow_isWordRest, skip_skip, ← length_encoded_ascii ascii,
    bind_of_ok (at_.lexeme_skip text)]
  rfl

theorem At.eat_next (at_ : At s before (c :: after)) (ascii : c.toNat < 128) :
    eat c s = .ok true (s.skip 1) := by
  rw [eat_eq, if_pos ((at_.look_first ascii).mpr rfl)]

theorem At.eat_other (at_ : At s before after) (ascii : d.toNat < 128) (nonzero : d.toUInt8 ≠ 0)
    (other : after.head? ≠ some d) : eat d s = .ok false s := by
  rw [eat_eq, if_neg]
  intro same
  cases after with
  | nil => exact nonzero (same.symm.trans (at_.look_end 0))
  | cons c after =>
    obtain rfl := (at_.look_first ascii).mp same
    exact other rfl

/-- What is no mark is an error, which takes a whole character. -/
theorem AtPiece.scanSingle (at_ : AtPiece s before c cs) (unknown : Scanner.mark? c' = none) :
    scanSingle c' (s.skip 1) = .ok (.error ⟨s.line, .unexpected (String.singleton c)⟩)
      (s.skip (encoded [c]).length) := by
  have size : c.utf8Size = (encoded [c]).length := by
    rw [encoded_cons, encoded_nil, List.append_nil, String.length_utf8EncodeChar]
  unfold ByteCursor.scanSingle
  rw [unknown]
  change (ByteCursor.lexeme >>= _) (s.skip 1).skipToBoundary = _
  rw [at_.skipToBoundary (Nat.le_refl 1) c.utf8Size_pos, size,
    bind_of_ok (at_.lexeme_skip (show [c] ++ cs = c :: cs from rfl)), String.singleton_eq_ofList]
  rfl

theorem AtPiece.scanMark (at_ : AtPiece s before c cs) (ascii : c.toNat < 128) :
    (do return (← scanMark c).map some : Scan _) (s.skip 1) =
      .ok (result (Scanner.mark s.line c cs).1) (s.past (Scanner.mark s.line c cs).1) := by
  have alone (single : Scanner.markEqual? c = none ∨ cs.head? ≠ some '=') :
      (do return (← ByteCursor.scanSingle c).map some : Scan _) (s.skip 1) =
        .ok (result (Scanner.mark s.line c cs).1) (s.past (Scanner.mark s.line c cs).1) := by
    rw [Scanner.mark_single single]
    cases found : Scanner.mark? c with
    | none =>
      rw [bind_of_ok (at_.scanSingle found)]
      rfl
    | some kind =>
      unfold ByteCursor.scanSingle
      rw [found, past_eq_skip (length_encoded_ascii ascii []) rfl]
      rfl
  unfold ByteCursor.scanMark
  split
  · rename_i kind found
    rw [bind_assoc]
    by_cases pair : cs.head? = some '='
    · obtain ⟨rest, rfl⟩ := List.head?_eq_some_iff.mp pair
      have size : (encoded [c, '=']).length = 1 + 1 := by
        rw [length_encoded_ascii ascii]
        rfl
      rw [Scanner.mark_pair found, bind_of_ok ((at_.second ascii).eat_next (by decide)),
        past_eq_skip size rfl]
      rfl
    · rw [bind_of_ok ((at_.second ascii).eat_other (by decide) (by decide) pair)]
      exact alone (.inr pair)
  · rename_i none
    exact alone (.inl none)

theorem length_comment (cs : List Char) :
    ((encoded cs).findIdx? (· == '\n'.toUInt8)).getD (encoded cs).length =
      (encoded (cs.takeWhile (· != '\n'))).length := by
  by_cases ended : '\n' ∈ cs
  · obtain ⟨text, behind, rfl, oneLine⟩ := List.eq_append_cons_of_mem ended
    rw [findIdx?_encoded_until (by decide) oneLine, (Scanner.span_until oneLine behind).1]
    rfl
  · rw [findIdx?_encoded_absent (by decide) ended, (Scanner.span_absent ended).1]
    rfl

theorem AtPiece.skipComment (at_ : AtPiece s before '/' ('/' :: cs)) :
    (do skipComment; return .ok none : Scan (Except LexError (Option Kind))) ((s.skip 1).skip 1) =
      .ok (.ok none) (s.past (.skipped ('/' :: '/' :: cs.takeWhile (· != '\n')) s.line)) := by
  have inside : At ((s.skip 1).skip 1) (before ++ ['/'] ++ ['/']) cs :=
    (at_.second (by decide)).skip ['/']
  have size : (encoded ('/' :: '/' :: cs.takeWhile (· != '\n'))).length =
      1 + (1 + (encoded (cs.takeWhile (· != '\n'))).length) := by
    rw [length_encoded_ascii (by decide), length_encoded_ascii (by decide)]
  unfold ByteCursor.skipComment
  rw [bind_assoc, bind_of_ok inside.rest, length_comment, past_eq_skip size rfl, ← skip_skip,
    ← skip_skip]
  rfl

/-- Nothing but an error starts with a character beyond ASCII. -/
structure Foreign (c : Char) : Prop where
  newline : c ≠ '\n'
  space : Scanner.isSpace c = false
  quote : c ≠ '"'
  digit : Scanner.isDigit c = false
  wordStart : Scanner.isWordStart c = false
  slash : c ≠ '/'
  markEqual : Scanner.markEqual? c = none
  mark : Scanner.mark? c = none

theorem foreign_of_wide (wide : 128 ≤ c.toNat) : Foreign c := by
  have other {d : Char} (ascii : d.toNat < 128) : c ≠ d := by
    rintro rfl
    omega
  refine ⟨other (by decide), ?_, other (by decide), narrow_isDigit.outside wide, ?_,
    other (by decide), ?_, ?_⟩
  · simp [Scanner.isSpace, other]
  · have := narrow_isWordRest.outside wide
    simp_all [Scanner.isWordRest]
  · unfold Scanner.markEqual?
    split <;> first | rfl | exact absurd wide (by decide)
  · unfold Scanner.mark?
    split <;> first | rfl | exact absurd wide (by decide)

theorem Foreign.next (foreign : Foreign c) (line : Nat) (cs : List Char) :
    Scanner.next line c cs = (.error (.unexpected (String.singleton c)) [c] line, cs) := by
  unfold Scanner.next
  rw [if_neg foreign.newline, foreign.space, if_neg (by simp), if_neg foreign.quote, foreign.digit,
    if_neg (by simp), foreign.wordStart, if_neg (by simp)]
  split
  · exact absurd rfl foreign.slash
  · rw [Scanner.mark_single (.inl foreign.markEqual), foreign.mark]

theorem Foreign.scanAfter (foreign : Foreign c) :
    scanAfter c = (do return (← scanSingle c).map some) := by
  unfold ByteCursor.scanAfter
  rw [if_neg foreign.newline, foreign.space, if_neg (by simp), if_neg foreign.quote, foreign.digit,
    if_neg (by simp), foreign.wordStart, if_neg (by simp), if_neg foreign.slash]
  unfold scanMark
  rw [foreign.markEqual]

theorem AtPiece.scanAfter (at_ : AtPiece s before c cs) (ascii : c.toNat < 128) :
    scanAfter c (s.skip 1) =
      .ok (result (Scanner.next s.line c cs).1) (s.past (Scanner.next s.line c cs).1) := by
  have single : (encoded [c]).length = 1 := length_encoded_ascii ascii []
  unfold ByteCursor.scanAfter Scanner.next
  split
  · have moved : s.past (.skipped [c] (s.line + 1)) = ((s.skip 1).nextLine 1).skip 0 :=
      past_eq single rfl
    rw [moved]
    rfl
  split
  · rw [past_eq_skip single rfl]
    rfl
  split
  · rename_i quote
    subst quote
    exact at_.scanString
  split
  · exact at_.scanNumber ‹_›
  split
  · exact at_.scanWord ‹_›
  by_cases slash : c = '/'
  · subst slash
    rw [if_pos rfl]
    by_cases comment : cs.head? = some '/'
    · obtain ⟨rest, rfl⟩ := List.head?_eq_some_iff.mp comment
      rw [bind_of_ok ((at_.second ascii).eat_next ascii)]
      exact at_.skipComment
    · rw [bind_of_ok ((at_.second ascii).eat_other ascii (by decide) comment)]
      change EStateM.Result.ok (Except.ok (some Kind.slash)) (s.skip 1) = _
      split
      · exact absurd rfl comment
      · rw [Scanner.mark_single (.inl rfl), past_eq_skip single rfl]
        rfl
  · rw [if_neg slash]
    split
    · exact absurd rfl slash
    · exact at_.scanMark ascii

theorem AtPiece.scanToken (at_ : AtPiece s before c cs) :
    scanToken s =
      .ok (result (Scanner.next s.line c cs).1) (s.past (Scanner.next s.line c cs).1) := by
  obtain ⟨b, tail, bytes⟩ := utf8EncodeChar_ne_nil c
  have first : bump s = .ok b (s.skip 1) := by
    have byte : s.bytes[s.pos]? = some b := by
      rw [← Nat.add_zero s.pos, at_.byte, encoded_cons, bytes]
      rfl
    rw [bump_eq, byte]
  unfold ByteCursor.scanToken
  rw [bind_of_ok first]
  by_cases ascii : c.toNat < 128
  · rw [utf8EncodeChar_ascii ascii] at bytes
    cases bytes
    rw [ofUInt8_toUInt8 ascii]
    exact at_.scanAfter ascii
  · have wide := Nat.le_of_not_lt ascii
    have foreign := foreign_of_wide (first_wide wide bytes)
    rw [foreign.scanAfter, bind_of_ok (at_.scanSingle foreign.mark), (foreign_of_wide wide).next,
      past_eq_skip rfl rfl]
    rfl

/-- A round takes the piece at the cursor. -/
theorem At.round (at_ : At s before (c :: cs)) :
    round s = .ok (Scanner.next s.line c cs).1.item
      ({ s with start := s.pos }.past (Scanner.next s.line c cs).1) := by
  have start : AtPiece { s with start := s.pos } before c cs := ⟨⟨at_.text, at_.pos⟩, rfl⟩
  have scanned := start.scanToken
  have labelled := Scanner.next_labelled s.line c cs
  have text := Scanner.next_text s.line c cs
  unfold ByteCursor.round
  change (ByteCursor.scanToken >>= emit) { s with start := s.pos } = _
  rw [bind_of_ok scanned]
  generalize (Scanner.next s.line c cs).1 = piece at *
  match found : piece.item with
  | none =>
    simp only [result, found]
    rfl
  | some (.error e) =>
    simp only [result, found]
    rfl
  | some (.ok token) =>
    have lexeme : ByteCursor.lexeme ({ s with start := s.pos }.past piece) =
        .ok piece.stretch ({ s with start := s.pos }.past piece) := start.lexeme text rfl rfl rfl
    simp only [result, found, emit]
    rw [bind_of_ok lexeme, labelled token found]
    rfl

/-- The cursor after a round stands after the piece. -/
theorem At.past (at_ : At s before (c :: cs)) :
    At ({ s with start := s.pos }.past (Scanner.next s.line c cs).1)
      (before ++ (Scanner.next s.line c cs).1.text) (Scanner.next s.line c cs).2 := by
  have start : At s before ((Scanner.next s.line c cs).1.text ++ (Scanner.next s.line c cs).2) := by
    rwa [Scanner.next_text]
  have moved := start.skip
  exact ⟨moved.text, moved.pos⟩

theorem At.not_atEnd (at_ : At s before (c :: cs)) : ¬ s.atEnd := by
  have size := c.utf8Size_pos
  rw [atEnd, decide_eq_true_eq, at_.size, encoded_cons, List.length_append,
    String.length_utf8EncodeChar]
  omega

theorem At.atEnd (at_ : At s before []) : s.atEnd := by
  rw [ByteCursor.atEnd, decide_eq_true_eq, at_.size]
  exact Nat.le_refl _

/-- A skipped piece leaves no trace among the items. -/
theorem collect_skipped (more : ¬ s.atEnd) (ran : round s = .ok none s') :
    collect s = collect s' := by
  have same : next s = next s' := by
    rw [next, dif_neg more]
    split
    · rename_i ran'
      cases ran.symm.trans ran'
      rfl
    · rename_i other
      exact absurd ran (other s')
  rw [collect, same, ← collect]

theorem collect_of_next (found : next s = .ok (some item) s') :
    collect s = (collect s').map (item :: ·) := by
  rw [collect, found]

theorem collect_item (more : ¬ s.atEnd) (ran : round s = .ok (some item) s') :
    collect s = (collect s').map (item :: ·) := by
  apply collect_of_next
  rw [next, dif_neg more]
  split
  · rename_i ran'
    cases ran.symm.trans ran'
  · exact ran

theorem next_end (stopped : s.atEnd) (fresh : s.ended = false) :
    next s = .ok (some (.ok (.eof s.line))) { s with ended := true } := by
  rw [next, dif_pos stopped, if_neg (by simp [fresh])]

theorem next_ended (stopped : s.atEnd) (ended : s.ended) : next s = .ok none s := by
  rw [next, dif_pos stopped, if_pos ended]

theorem collect_ended (stopped : s.atEnd) (ended : s.ended) : collect s = .ok [] := by
  rw [collect, next_ended stopped ended]

theorem collect_end (stopped : s.atEnd) (fresh : s.ended = false) :
    collect s = .ok [.ok (.eof s.line)] := by
  have rest : collect { s with ended := true } = .ok [] := collect_ended stopped rfl
  rw [collect_of_next (next_end stopped fresh), rest]
  rfl

/-- A scan does not break off, and gives the items of the pieces. -/
theorem collect_eq (line : Nat) (cs : List Char) : ∀ {s before}, At s before cs → s.line = line →
    s.ended = false → collect s = .ok (Scanner.itemsFrom line cs) := by
  fun_induction Scanner.itemsFrom line cs with
  | case1 line =>
    rintro s before at_ rfl fresh
    exact collect_end at_.atEnd fresh
  | case2 line c cs step skipped =>
    rename_i ih
    rintro s before at_ rfl fresh
    have ran := at_.round
    rw [skipped] at ran
    rw [collect_skipped at_.not_atEnd ran]
    exact ih at_.past rfl fresh
  | case3 line c cs step item found =>
    rename_i ih
    rintro s before at_ rfl fresh
    have ran := at_.round
    rw [found] at ran
    rw [collect_item at_.not_atEnd ran, ih at_.past rfl fresh]
    rfl

/-- The rounds of a scan, with the piece that each of them takes: its bytes are those from the
cursor before the round to the cursor after it. -/
inductive Walk : ByteCursor → List Scanner.Piece → ByteCursor → Prop where
  | stop (stopped : s.atEnd) : Walk s [] s
  | round (more : ¬ s.atEnd) (ran : round s = .ok piece.item s')
      (covers : stretch? s.text s.pos s'.pos = some piece.stretch) (walk : Walk s' pieces last) :
      Walk s (piece :: pieces) last

theorem Walk.atEnd (walk : Walk s pieces last) : last.atEnd := by
  induction walk with
  | stop stopped => exact stopped
  | round _ _ _ _ ih => exact ih

theorem walk_pieces (line : Nat) (cs : List Char) : ∀ {s before}, At s before cs → s.line = line →
    s.ended = false → ∃ last, Walk s (Scanner.piecesFrom line cs) last ∧
      last.pos = s.text.utf8ByteSize ∧
      last.line = Scanner.lastLine line (Scanner.piecesFrom line cs) ∧ last.ended = false := by
  fun_induction Scanner.piecesFrom line cs with
  | case1 line =>
    rintro s before at_ rfl fresh
    refine ⟨s, .stop at_.atEnd, ?_, rfl, fresh⟩
    rw [at_.text, utf8ByteSize_ofList, List.append_nil, at_.pos]
  | case2 line c cs step =>
    rename_i ih
    rintro s before at_ rfl fresh
    obtain ⟨last, walk, pos, line, ended⟩ := ih at_.past rfl fresh
    have covers : stretch? s.text s.pos (s.pos + (encoded step.1.text).length) =
        some step.1.stretch := by
      rw [at_.text, at_.pos, ← Scanner.next_text s.line c cs, stretch?_middle]
      rfl
    refine ⟨last, .round at_.not_atEnd at_.round covers walk, pos, ?_, ended⟩
    rw [Scanner.lastLine_cons]
    exact line

end ByteCursor

theorem at_start (source : String) : ByteCursor.At { text := source } [] source.toList :=
  ⟨by rw [List.nil_append, String.ofList_toList], rfl⟩

theorem collect_source (source : String) :
    ByteCursor.collect { text := source } = .ok (Scanner.itemsFrom 1 source.toList) :=
  ByteCursor.collect_eq 1 _ (at_start source) rfl rfl

/-- The items of a source are those of its pieces. -/
theorem scanItems_eq (source : String) : scanItems source = Scanner.itemsFrom 1 source.toList := by
  rw [scanItems, collect_source]

end Lox
