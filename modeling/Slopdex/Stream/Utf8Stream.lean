import Slopdex.Stream.InlineHiddenTag

/-!
# Bytes before text

The parser gets bytes and gives its inner parser text. The bytes of a character that is not complete
are kept for the next chunk. A chunk with bytes that no later chunk could mend is rolled back, so that
the inner parser does not see a part of it.
-/

namespace Slopdex.Stream

open Protocol (Text)
open List ByteArray

/-- The position behind the last valid character, and how many bytes are wrong there; `none` stands for
the end of the input within a character. -/
structure Utf8Error where
  validUpTo : ℕ
  errorLen : Option ℕ

/-- The length of the wrong bytes where no character can be read, or `none` if the input ends within a
character that is right so far -/
def errorLen : List UInt8 → Option ℕ
  | [] => none
  | [first] => if 0xC2 ≤ first ∧ first ≤ 0xF4 then none else some 1
  | first :: second :: rest =>
    if 0xE0 ≤ first ∧ first ≤ 0xEF ∧ (if first = 0xE0 then 0xA0 else 0x80) ≤ second ∧
        second ≤ (if first = 0xED then 0x9F else 0xBF) then
      if rest = [] then none else some 2
    else if 0xF0 ≤ first ∧ first ≤ 0xF4 ∧ (if first = 0xF0 then 0x90 else 0x80) ≤ second ∧
        second ≤ (if first = 0xF4 then 0x8F else 0xBF) then
      match rest with
      | [] => none
      | third :: rest =>
        if 0x80 ≤ third ∧ third ≤ 0xBF then if rest = [] then none else some 3 else some 2
    else some 1

/-- `std::str::from_utf8`: the text, or the longest beginning that is text and what is wrong after it -/
def fromUtf8 (bytes : ByteArray) : Except Utf8Error Text :=
  match bytes.utf8Decode? with
  | some text => .ok text.toList
  | none =>
    let validUpTo := Nat.findGreatest (fun n ↦ (bytes.extract 0 n).utf8Decode?.isSome) bytes.size
    .error ⟨validUpTo, errorLen (bytes.extract validUpTo bytes.size).data.toList⟩

theorem utf8Decode?_isSome_iff {bytes : ByteArray} :
    bytes.utf8Decode?.isSome ↔ ∃ text : Text, bytes = text.utf8Encode := by
  refine ⟨fun h ↦ ⟨_, (@utf8Encode_get_utf8Decode? bytes h).symm⟩, ?_⟩
  rintro ⟨text, rfl⟩
  simp [utf8Decode?_utf8Encode]

theorem fromUtf8_eq_ok_iff {bytes : ByteArray} {text : Text} :
    fromUtf8 bytes = .ok text ↔ bytes = text.utf8Encode := by
  constructor
  · intro h
    cases hdecode : bytes.utf8Decode? with
    | none => simp [fromUtf8, hdecode] at h
    | some =>
      have hencode := @utf8Encode_get_utf8Decode? bytes (by simp [hdecode])
      simp_all [fromUtf8]
  · rintro rfl
    simp [fromUtf8, utf8Decode?_utf8Encode]

section

variable {bytes : ByteArray} {err : Utf8Error} (h : fromUtf8 bytes = .error err)
include h

theorem utf8Decode?_of_fromUtf8_error : bytes.utf8Decode? = none := by
  cases hdecode : bytes.utf8Decode? with
  | none => rfl
  | some => simp [fromUtf8, hdecode] at h

theorem eq_of_fromUtf8_error : err.validUpTo =
      Nat.findGreatest (fun n ↦ (bytes.extract 0 n).utf8Decode?.isSome) bytes.size ∧
    err.errorLen = errorLen (bytes.extract err.validUpTo bytes.size).data.toList := by
  rw [fromUtf8, utf8Decode?_of_fromUtf8_error h] at h
  cases h
  exact ⟨rfl, rfl⟩

theorem validUpTo_spec :
    err.validUpTo ≤ bytes.size ∧ ∃ text : Text, bytes.extract 0 err.validUpTo = text.utf8Encode := by
  rw [(eq_of_fromUtf8_error h).1]
  refine ⟨Nat.findGreatest_le _, utf8Decode?_isSome_iff.mp ?_⟩
  exact @Nat.findGreatest_spec 0 (fun n ↦ (bytes.extract 0 n).utf8Decode?.isSome) _ _
    (Nat.zero_le _) (utf8Decode?_isSome_iff.mpr ⟨[], by simp⟩)

theorem le_validUpTo {n : ℕ} (hn : n ≤ bytes.size) {text : Text}
    (htext : bytes.extract 0 n = text.utf8Encode) : n ≤ err.validUpTo := by
  rw [(eq_of_fromUtf8_error h).1]
  exact Nat.le_findGreatest hn (utf8Decode?_isSome_iff.mpr ⟨text, htext⟩)

end

/-- Where a character is cut, nothing is wrong yet. -/
theorem errorLen_of_append_eq {rest more : List UInt8} {c : Char}
    (h : rest ++ more = String.utf8EncodeChar c) (hmore : more ≠ []) : errorLen rest = none := by
  have hc : c.val.toNat < 0xD800 ∨ 0xDFFF < c.val.toNat ∧ c.val.toNat < 0x110000 := c.valid
  rw [String.utf8EncodeChar] at h
  generalize c.val.toNat = v at h hc
  have hlen := congrArg length h
  have hpos := length_pos_iff.mpr hmore
  rcases rest with _ | ⟨first, _ | ⟨second, _ | ⟨third, _ | ⟨fourth, rest⟩⟩⟩⟩
  · rfl
  -- the bytes of a character with at least one more are in the ranges of the table
  all_goals
    split_ifs at h hlen <;> simp only [cons_append, nil_append, length_cons, length_append,
      length_nil, cons.injEq] at h hlen <;> first
    | omega
    | simp only [errorLen, h, UInt8.le_iff_toNat_le, ← UInt8.toNat_inj, apply_ite UInt8.toNat,
        UInt8.toNat_ofNat', UInt8.reduceToNat]
      split_ifs <;> first | rfl | omega

/-- The beginning of a text is never wrong. -/
theorem errorLen_eq_none {bytes more : ByteArray} {err : Utf8Error} {text : Text}
    (h : fromUtf8 bytes = .error err) (htext : bytes ++ more = text.utf8Encode) :
    err.errorLen = none := by
  obtain ⟨hle, front, hfront⟩ := validUpTo_spec h
  have hsplit : bytes = front.utf8Encode ++ bytes.extract err.validUpTo bytes.size := by
    rw [← hfront, ← extract_eq_extract_append_extract _ (Nat.zero_le _) hle, extract_zero_size]
  rw [(eq_of_fromUtf8_error h).2]
  generalize bytes.extract err.validUpTo bytes.size = rest at hsplit ⊢
  rw [hsplit, ByteArray.append_assoc] at htext
  obtain ⟨back, rfl⟩ := isPrefix_of_utf8Encode_append_eq_utf8Encode _ htext
  rw [utf8Encode_append, ByteArray.append_right_inj] at htext
  have hlist := congrArg (·.data.toList) htext
  cases back with
  | nil =>
    have hnil : rest.data.toList = [] := by simp_all
    rw [hnil, errorLen]
  | cons c back =>
    have hcut : rest.data.toList ++ more.data.toList =
        String.utf8EncodeChar c ++ back.flatMap String.utf8EncodeChar := by
      simpa [List.utf8Encode] using hlist
    -- a whole character behind the longest beginning would have made it longer
    have hwhole (left : List UInt8) : rest.data.toList ≠ String.utf8EncodeChar c ++ left := by
      intro hleft
      have hrest : rest = [c].utf8Encode ++ left.toByteArray := by
        ext1
        simp [← Array.toList_inj, hleft, List.utf8Encode]
      rw [hrest, ← ByteArray.append_assoc, ← utf8Encode_append] at hsplit
      have hlonger := le_validUpTo h (n := (front ++ [c]).utf8Encode.size)
        (by rw [hsplit, size_append]; exact Nat.le_add_right _ _)
        (by rw [hsplit, extract_append_eq_left rfl])
      have hsize := congrArg ByteArray.size hfront
      rw [size_extract, Nat.min_eq_left hle] at hsize
      rw [utf8Encode_append, size_append, ← hsize, List.utf8Encode_singleton] at hlonger
      have hpos := c.utf8Size_pos
      simp at hlonger
      omega
    rcases List.append_eq_append_iff.mp hcut with ⟨left, hc, -⟩ | ⟨left, hrest, -⟩
    · refine errorLen_of_append_eq hc.symm ?_
      rintro rfl
      exact hwhole [] (by simp [hc])
    · exact absurd hrest (hwhole left)

inductive Utf8StreamParserError
  | invalidUtf8 (validUpTo errorLen : ℕ)
  | incompleteUtf8AtEof

structure StreamTextParser (σ ε : Type) where
  pushStr : σ → Text → σ × StreamTextChunk ε
  finish : σ → σ × StreamTextChunk ε

structure Utf8StreamParser (σ : Type) where
  inner : σ
  pendingUtf8 : ByteArray := .empty

namespace Utf8StreamParser

variable {σ ε : Type} (P : StreamTextParser σ ε)

abbrev Answer (ε : Type) := Except Utf8StreamParserError (StreamTextChunk ε)

variable (parser : Utf8StreamParser σ)

def feed (text : Text) (left : ByteArray) : Utf8StreamParser σ × Answer ε :=
  let (inner, out) := P.pushStr parser.inner text
  (⟨inner, left⟩, .ok out)

def pushBytes (chunk : ByteArray) : Utf8StreamParser σ × Answer ε :=
  let oldLen := parser.pendingUtf8.size
  let buffered := parser.pendingUtf8 ++ chunk
  let truncated := { parser with pendingUtf8 := buffered.extract 0 oldLen }
  match fromUtf8 buffered with
  | .ok text => parser.feed P text .empty
  | .error err =>
    match err.errorLen with
    | some errorLen => (truncated, .error (.invalidUtf8 err.validUpTo errorLen))
    | none =>
      if err.validUpTo = 0 then ({ parser with pendingUtf8 := buffered }, .ok 1)
      else match fromUtf8 (buffered.extract 0 err.validUpTo) with
        | .error prefixErr =>
          (truncated, .error (.invalidUtf8 prefixErr.validUpTo (prefixErr.errorLen.getD 0)))
        | .ok text => parser.feed P text (buffered.extract err.validUpTo buffered.size)

/-- The bytes that are buffered are checked twice. -/
def finish : Utf8StreamParser σ × Answer ε :=
  if parser.pendingUtf8.isEmpty then
    let (inner, tail) := P.finish parser.inner
    ({ parser with inner }, .ok (1 * tail))
  else match fromUtf8 parser.pendingUtf8 with
    | .ok text =>
      let (inner, out) := P.pushStr parser.inner text
      let (inner, tail) := P.finish inner
      (⟨inner, .empty⟩, .ok (out * tail))
    | .error err =>
      (parser, .error (err.errorLen.elim .incompleteUtf8AtEof (.invalidUtf8 err.validUpTo)))

def pushAll (parser : Utf8StreamParser σ) : List ByteArray → Utf8StreamParser σ × List (Answer ε)
  | [] => (parser, [])
  | chunk :: rest =>
    let (parser, answer) := pushBytes P parser chunk
    let (parser, answers) := pushAll parser rest
    (parser, answer :: answers)

def accepted (chunks : List ByteArray) : List ByteArray :=
  ((chunks.zip (pushAll P parser chunks).2).filter (·.2.isOk)).map (·.1)

def Incomplete (bytes : ByteArray) : Prop := ∀ text : Text, bytes = text.utf8Encode → text = []

section

variable (chunk : ByteArray)

theorem pushBytes_cases :
    (∃ err, pushBytes P parser chunk = (parser, .error err)) ∨
      Incomplete (parser.pendingUtf8 ++ chunk) ∧ pushBytes P parser chunk =
        ({ parser with pendingUtf8 := parser.pendingUtf8 ++ chunk }, .ok 1) ∨
      ∃ text left, pushBytes P parser chunk = parser.feed P text left ∧
        parser.pendingUtf8 ++ chunk = text.utf8Encode ++ left ∧ Incomplete left := by
  have ht : { parser with pendingUtf8 :=
      (parser.pendingUtf8 ++ chunk).extract 0 parser.pendingUtf8.size } = parser := by
    rw [extract_append_eq_left rfl]
  have hi {bytes : ByteArray} {err : Utf8Error} (herr : fromUtf8 bytes = .error err)
      (text : Text) : bytes ≠ text.utf8Encode := by
    intro hv
    rw [fromUtf8_eq_ok_iff.mpr hv] at herr
    cases herr
  unfold pushBytes
  dsimp only
  rw [ht]
  cases hstd : fromUtf8 (parser.pendingUtf8 ++ chunk) with
  | ok text =>
    refine .inr (.inr ⟨text, .empty, rfl, ?_, ?_⟩)
    · rw [fromUtf8_eq_ok_iff.mp hstd, append_empty]
    · exact fun rest hrest ↦ utf8Encode_eq_empty.mp hrest.symm
  | error err =>
    obtain ⟨hle, text, htext⟩ := validUpTo_spec hstd
    dsimp only
    cases err.errorLen with
    | some => exact .inl ⟨_, rfl⟩
    | none =>
      dsimp only
      split
      next => exact .inr (.inl ⟨fun rest hrest ↦ absurd hrest (hi hstd rest), rfl⟩)
      next =>
        have hs : parser.pendingUtf8 ++ chunk = text.utf8Encode ++
            (parser.pendingUtf8 ++ chunk).extract err.validUpTo
              (parser.pendingUtf8 ++ chunk).size := by
          rw [← htext, ← extract_eq_extract_append_extract _ (Nat.zero_le _) hle, extract_zero_size]
        rw [fromUtf8_eq_ok_iff.mpr htext]
        refine .inr (.inr ⟨text, _, rfl, hs, fun rest hrest ↦ ?_⟩)
        rw [hrest, ← utf8Encode_append] at hs
        exact absurd hs (hi hstd _)

variable {chunk} in
theorem pushBytes_eq_self (h : (pushBytes P parser chunk).2.isOk = false) :
    (pushBytes P parser chunk).1 = parser := by
  rcases pushBytes_cases P parser chunk with ⟨_, hp⟩ | ⟨-, hp⟩ | ⟨_, _, hp, -⟩
  · rw [hp]
  all_goals
    rw [hp] at h
    cases h

theorem accepted_cons (rest : List ByteArray) :
    accepted P parser (chunk :: rest) =
      if (pushBytes P parser chunk).2.isOk then
        chunk :: accepted P (pushBytes P parser chunk).1 rest
      else accepted P (pushBytes P parser chunk).1 rest := by
  rw [accepted, pushAll, zip_cons_cons, filter_cons]
  split <;> rfl

end

theorem pushAll_accepted (chunks : List ByteArray) :
    pushAll P parser (accepted P parser chunks) =
      ((pushAll P parser chunks).1, (pushAll P parser chunks).2.filter (·.isOk)) := by
  induction chunks generalizing parser with
  | nil => rfl
  | cons chunk _ ih =>
    rw [accepted_cons]
    cases hok : (pushBytes P parser chunk).2.isOk with
    | true => simp [pushAll, hok, ih]
    | false => simp [pushAll, hok, pushBytes_eq_self P parser hok, ih]

def logged : StreamTextParser (σ × List Text) ε where
  pushStr s text :=
    let (inner, out) := P.pushStr s.1 text
    ((inner, s.2 ++ [text]), out)
  finish s :=
    let (inner, out) := P.finish s.1
    ((inner, s.2), out)

/-- The texts and what is pending are the bytes that came in. -/
structure Decodes (parser : Utf8StreamParser (σ × List Text)) (bytes : ByteArray) : Prop where
  split : parser.inner.2.flatten.utf8Encode ++ parser.pendingUtf8 = bytes
  incomplete : Incomplete parser.pendingUtf8

section Decodes

variable {parser : Utf8StreamParser (σ × List Text)} {bytes : ByteArray} (h : Decodes parser bytes)
include h

variable {P} in
theorem Decodes.push {chunk : ByteArray}
    (hok : (pushBytes (logged P) parser chunk).2.isOk = true) :
    Decodes (pushBytes (logged P) parser chunk).1 (bytes ++ chunk) := by
  rcases pushBytes_cases (logged P) parser chunk with
    ⟨err, hp⟩ | ⟨hi, hp⟩ | ⟨text, left, hp, hs, hl⟩
  · rw [hp] at hok
    cases hok
  · rw [hp]
    refine ⟨?_, hi⟩
    rw [← h.split, ByteArray.append_assoc]
  · rw [hp]
    refine ⟨?_, hl⟩
    calc (parser.inner.2 ++ [text]).flatten.utf8Encode ++ left
        = parser.inner.2.flatten.utf8Encode ++ (text.utf8Encode ++ left) := by
          simp [utf8Encode_append, ByteArray.append_assoc]
      _ = bytes ++ chunk := by rw [← hs, ← ByteArray.append_assoc, h.split]

theorem Decodes.run (chunks : List ByteArray) :
    Decodes (pushAll (logged P) parser chunks).1
      ((accepted (logged P) parser chunks).foldl (· ++ ·) bytes) := by
  induction chunks generalizing parser bytes with
  | nil => exact h
  | cons chunk _ ih =>
    rw [accepted_cons]
    cases hok : (pushBytes (logged P) parser chunk).2.isOk with
    | true => exact ih (h.push hok)
    | false =>
      have hs := pushBytes_eq_self (logged P) parser hok
      exact ih (hs.symm ▸ h)

theorem Decodes.complete {text : Text} (htext : bytes = text.utf8Encode) :
    parser.inner.2.flatten = text ∧ parser.pendingUtf8 = .empty := by
  obtain ⟨rest, rfl⟩ :=
    isPrefix_of_utf8Encode_append_eq_utf8Encode _ (h.split.trans htext)
  have hrest := h.split.trans htext
  rw [utf8Encode_append, ByteArray.append_right_inj] at hrest
  obtain rfl := h.incomplete rest hrest
  exact ⟨(append_nil _).symm, hrest⟩

end Decodes

/-- No chunk is rejected as long as what is pending and comes in is the beginning of a text. -/
theorem pushBytes_isOk {chunk more : ByteArray} {text : Text}
    (htext : parser.pendingUtf8 ++ chunk ++ more = text.utf8Encode) :
    (pushBytes P parser chunk).2.isOk := by
  unfold pushBytes
  dsimp only
  cases hstd : fromUtf8 (parser.pendingUtf8 ++ chunk) with
  | ok => rfl
  | error err =>
    obtain ⟨-, front, hfront⟩ := validUpTo_spec hstd
    dsimp only
    rw [errorLen_eq_none hstd htext]
    dsimp only
    split
    · rfl
    · rw [fromUtf8_eq_ok_iff.mpr hfront]
      rfl

theorem exists_foldl_append_eq (bytes : ByteArray) (chunks : List ByteArray) :
    ∃ later, chunks.foldl (· ++ ·) bytes = bytes ++ later := by
  induction chunks generalizing bytes with
  | nil => exact ⟨.empty, append_empty.symm⟩
  | cons chunk rest ih =>
    obtain ⟨later, hlater⟩ := ih (bytes ++ chunk)
    exact ⟨chunk ++ later, by rw [foldl_cons, hlater, ByteArray.append_assoc]⟩

theorem Decodes.accepted_eq {parser : Utf8StreamParser (σ × List Text)} {bytes more : ByteArray}
    (h : Decodes parser bytes) {chunks : List ByteArray} {text : Text}
    (htext : chunks.foldl (· ++ ·) bytes ++ more = text.utf8Encode) :
    accepted (logged P) parser chunks = chunks := by
  induction chunks generalizing parser bytes with
  | nil => rfl
  | cons chunk rest ih =>
    have hok : (pushBytes (logged P) parser chunk).2.isOk := by
      obtain ⟨later, hlater⟩ := exists_foldl_append_eq (bytes ++ chunk) rest
      have hpending := htext
      rw [foldl_cons, hlater, ← h.split] at hpending
      simp only [ByteArray.append_assoc] at hpending
      obtain ⟨back, rfl⟩ := isPrefix_of_utf8Encode_append_eq_utf8Encode _ hpending
      rw [utf8Encode_append, ByteArray.append_right_inj] at hpending
      rw [← ByteArray.append_assoc] at hpending
      exact pushBytes_isOk (logged P) parser hpending
    rw [accepted_cons, if_pos hok, ih (h.push hok) htext]

/-- A chunk that is rejected leaves no trace, and the calls answer as without it. Once the chunks that
were not rejected are text, the inner parser has got this text, and the end adds nothing to it. No
chunk is rejected when all of them are the beginning of a text, wherever the cuts are. -/
theorem pushAll_rolls_back_and_decodes (chunks : List ByteArray) (inner : σ) :
    (∀ chunk err, (pushBytes P parser chunk).2 = .error err →
        (pushBytes P parser chunk).1 = parser) ∧
      pushAll P parser (accepted P parser chunks) =
        ((pushAll P parser chunks).1, (pushAll P parser chunks).2.filter (·.isOk)) ∧
      (∀ text, fromUtf8 ((accepted (logged P) ⟨(inner, []), .empty⟩ chunks).foldl (· ++ ·)
          .empty) = .ok text →
        let last := (pushAll (logged P) ⟨(inner, []), .empty⟩ chunks).1
        last.inner.2.flatten = text ∧ last.pendingUtf8 = .empty ∧
          (finish (logged P) last).1.inner.2 = last.inner.2 ∧
          (finish (logged P) last).2 = .ok (P.finish last.inner.1).2) ∧
      ∀ more (text : Text), chunks.foldl (· ++ ·) .empty ++ more = text.utf8Encode →
        accepted (logged P) ⟨(inner, []), .empty⟩ chunks = chunks := by
  have hnew : Decodes (⟨(inner, []), .empty⟩ : Utf8StreamParser (σ × List Text)) .empty :=
    ⟨rfl, fun rest hrest ↦ utf8Encode_eq_empty.mp hrest.symm⟩
  refine ⟨fun chunk err herr ↦ ?_, pushAll_accepted P parser chunks, fun text htext ↦ ?_,
    fun more text htext ↦ hnew.accepted_eq P htext⟩
  · exact pushBytes_eq_self P parser (by rw [herr]; rfl)
  · obtain ⟨hlog, hpend⟩ :=
      (hnew.run P chunks).complete (fromUtf8_eq_ok_iff.mp htext)
    refine ⟨hlog, hpend, ?_⟩
    rw [finish, if_pos (by rw [hpend]; rfl)]
    exact ⟨rfl, congrArg Except.ok (one_mul _)⟩

/-- A parser that shows all text, for the two bytes of one character -/
def plain : StreamTextParser Unit Unit := ⟨fun _ text ↦ ((), ⟨text, []⟩), fun _ ↦ ((), 1)⟩

theorem pushAll_rolls_back_and_decodes_cut :
    let last := (pushAll (logged plain) ⟨((), []), .empty⟩ [⟨#[0xC3]⟩, ⟨#[0xA9]⟩]).1
    last.inner.2.flatten = ['é'] ∧ last.pendingUtf8 = .empty := by
  have hspec := pushAll_rolls_back_and_decodes plain ⟨(), .empty⟩ [⟨#[0xC3]⟩, ⟨#[0xA9]⟩] ()
  have hall := hspec.2.2.2 .empty ['é'] (by decide)
  obtain ⟨htext, hpending, -⟩ := hspec.2.2.1 ['é'] (by
    rw [hall]
    exact fromUtf8_eq_ok_iff.mpr (by decide))
  exact ⟨htext, hpending⟩

end Utf8StreamParser

end Slopdex.Stream
