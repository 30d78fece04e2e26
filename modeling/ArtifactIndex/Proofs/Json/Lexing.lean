import ArtifactIndex.Proofs.Json.Numeral

/-!
# Written documents as tokens

`Json.tokens` lists the tokens of a document. Scanning its written form gives exactly those
(`Json.tokens?_pretty`), whatever its strings hold, as long as its numerals are well formed.

`Reads` says that bytes are some tokens wherever they stand between other tokens. A number is read
only together with the byte behind it, so a document satisfies the weaker `ReadsBefore`, which asks
for bytes behind it that continue no number; the end of the text and every separator will do. Both
are kept by putting written forms together (`Reads.append`, `ReadsBefore.append`).
-/

set_option autoImplicit false
set_option relaxedAutoImplicit false

namespace ArtifactIndex.Json

open Text (Bytes)

namespace Lexing

variable {l l' : Lexing}

/-- The tokens of the remaining bytes, with those found so far. -/
def run (l : Lexing) (bytes : Bytes) : Option (List Token) :=
  (bytes.foldlM step l).bind finish?

theorem run_cons {b : UInt8} (h : l.step b = some l') (bytes : Bytes) :
    l.run (b :: bytes) = l'.run bytes := by
  rw [run, foldlM_cons_some h]
  rfl

theorem run_append {xs : Bytes} (h : xs.foldlM step l = some l') (ys : Bytes) :
    l.run (xs ++ ys) = l'.run ys := by
  rw [run, List.foldlM_append, h]
  rfl

/-! ### Numbers -/

theorem foldlM_number {s s' : NumeralScan} {bytes : Bytes}
    (h : bytes.foldlM NumeralScan.add? s = some s') (reversed : List Token) :
    bytes.foldlM step ⟨reversed, .number s⟩ = some ⟨reversed, .number s'⟩ := by
  induction bytes generalizing s with
  | nil =>
    obtain rfl := Option.some.inj h
    rfl
  | cons b bytes ih =>
    rw [List.foldlM_cons] at h
    obtain ⟨next, hnext, hrest⟩ := Option.bind_eq_some_iff.1 h
    have hstep : step ⟨reversed, .number s⟩ b = some ⟨reversed, .number next⟩ := by
      simp only [step, hnext]
      rfl
    rw [foldlM_cons_some hstep]
    exact ih hrest

/-- No other token starts as a number does. -/
theorem open?_of_start {s : NumeralScan} {b : UInt8} (h : NumeralScan.start? b = some s) :
    l.open? b = some (l.goTo (.number s)) := by
  have hall : ∀ n < 256, (NumeralScan.start? (UInt8.ofNat n)).isSome →
      ¬ isSpace (UInt8.ofNat n) ∧ UInt8.ofNat n ∉
        [0x5B, 0x5D, 0x7B, 0x7D, 0x3A, 0x2C, 0x22, 0x6E, 0x74, 0x66] := by
    decide +kernel
  have hb := hall b.toNat b.toNat_lt
  rw [UInt8.ofNat_toNat, h] at hb
  obtain ⟨hspace, hother⟩ := hb rfl
  simp only [List.mem_cons, List.not_mem_nil, or_false, not_or] at hother
  simp [open?, hspace, hother, h]

theorem run_numeral {n : Numeral} (h : n.WellFormed) (reversed : List Token) {rest : Bytes}
    (hrest : ∀ b ∈ rest.head?, endsNumeral b) :
    run ⟨reversed, .between⟩ (n.bytes ++ rest) = run ⟨.number n :: reversed, .between⟩ rest := by
  obtain ⟨s, hread, hfinish⟩ := Numeral.exists_scan h
  cases hbytes : n.bytes with
  | nil => simp [hbytes, NumeralScan.read?] at hread
  | cons b bytes =>
    rw [hbytes] at hread
    obtain ⟨first, hfirst, hadded⟩ := Option.bind_eq_some_iff.1 hread
    have hopen : step ⟨reversed, .between⟩ b = some ⟨reversed, .number first⟩ :=
      open?_of_start hfirst
    rw [List.cons_append, run_cons hopen, run_append (foldlM_number hadded reversed)]
    cases rest with
    | nil => simp [run, finish?, hfinish]
    | cons e rest =>
      have hends : s.add? e = none := NumeralScan.add?_eq_none hfinish (hrest e rfl)
      have hstep : step ⟨reversed, .number s⟩ e = step ⟨.number n :: reversed, .between⟩ e := by
        simp only [step, hends, hfinish]
        rfl
      rw [run, run, List.foldlM_cons, List.foldlM_cons, hstep]

/-! ### Strings -/

theorem hexDigit?_hexByte {d : ℕ} (h : d < 16) : hexDigit? (hexByte d) = some d := by
  have hall : ∀ d < 16, hexDigit? (hexByte d) = some d := by
    decide
  exact hall d h

theorem addUnit_ascii (read : Bytes) {n : ℕ} (h : n < 0x80) :
    StringScan.addUnit ⟨read, none⟩ n = ⟨n.toUInt8 :: read, none⟩ := by
  have hhalf : ¬ (0xD800 ≤ n ∧ n ≤ 0xDBFF) := by omega
  simp only [StringScan.addUnit, if_neg hhalf, Text.encodeCodePoint, if_pos h]
  rfl

/-- The six characters that stand for a control byte. -/
theorem foldlM_hexEscape (reversed : List Token) (read : Bytes) {b : UInt8} (h : b < 0x20) :
    [0x5C, 0x75, 0x30, 0x30, hexByte (b.toNat / 16), hexByte (b.toNat % 16)].foldlM step
      ⟨reversed, .string ⟨read, none⟩⟩ = some ⟨reversed, .string ⟨b :: read, none⟩⟩ := by
  have hb : b.toNat < 0x20 := UInt8.lt_iff_toNat_lt.1 h
  have hhigh := hexDigit?_hexByte (d := b.toNat / 16) (by omega)
  have hlow := hexDigit?_hexByte (d := b.toNat % 16) (by omega)
  have hvalue : b.toNat / 16 * 16 + b.toNat % 16 = b.toNat := Nat.div_add_mod' b.toNat 16
  have hunit : StringScan.addUnit ⟨read, none⟩ b.toNat = ⟨b :: read, none⟩ := by
    rw [addUnit_ascii read (by omega)]
    simp
  have hfirst : step ⟨reversed, .hex ⟨read, none⟩ 2 0⟩ (hexByte (b.toNat / 16)) =
      some ⟨reversed, .hex ⟨read, none⟩ 1 (b.toNat / 16)⟩ := by
    simp [step, hhigh, goTo]
  have hsecond : step ⟨reversed, .hex ⟨read, none⟩ 1 (b.toNat / 16)⟩ (hexByte (b.toNat % 16)) =
      some ⟨reversed, .string ⟨b :: read, none⟩⟩ := by
    simp [step, hlow, goTo, hvalue, hunit]
  change [hexByte (b.toNat / 16), hexByte (b.toNat % 16)].foldlM step
    ⟨reversed, .hex ⟨read, none⟩ 2 0⟩ = _
  rw [foldlM_cons_some hfirst, foldlM_cons_some hsecond]
  rfl

/-- Escaped or not, a byte of a string is read as that byte. -/
theorem foldlM_escapeByte (reversed : List Token) (read : Bytes) (b : UInt8) :
    (escapeByte b).foldlM step ⟨reversed, .string ⟨read, none⟩⟩ =
      some ⟨reversed, .string ⟨b :: read, none⟩⟩ := by
  unfold escapeByte
  split_ifs with hquote hbackslash h08 h09 h0A h0C h0D hcontrol
  · rw [hquote]; rfl
  · rw [hbackslash]; rfl
  · rw [h08]; rfl
  · rw [h09]; rfl
  · rw [h0A]; rfl
  · rw [h0C]; rfl
  · rw [h0D]; rfl
  · exact foldlM_hexEscape reversed read hcontrol
  · simp [step, hquote, hbackslash, hcontrol, goTo, StringScan.addByte, StringScan.settle]

theorem foldlM_escaped (reversed : List Token) (read s : Bytes) :
    (s.flatMap escapeByte).foldlM step ⟨reversed, .string ⟨read, none⟩⟩ =
      some ⟨reversed, .string ⟨s.reverse ++ read, none⟩⟩ := by
  induction s generalizing read with
  | nil => rfl
  | cons b s ih =>
    rw [List.flatMap_cons, List.foldlM_append, foldlM_escapeByte, Option.bind_eq_bind,
      Option.bind_some, ih]
    simp

theorem run_stringBytes (reversed : List Token) (s rest : Bytes) :
    run ⟨reversed, .between⟩ (stringBytes s ++ rest) =
      run ⟨.string s :: reversed, .between⟩ rest := by
  have hopen : step ⟨reversed, .between⟩ 0x22 = some ⟨reversed, .string ⟨[], none⟩⟩ := rfl
  have hclose : step ⟨reversed, .string ⟨s.reverse, none⟩⟩ 0x22 =
      some ⟨.string s :: reversed, .between⟩ := by
    simp [step, emit, StringScan.finish, StringScan.settle]
  have hescaped := foldlM_escaped reversed [] s
  rw [List.append_nil] at hescaped
  rw [stringBytes, List.cons_append, List.cons_append, run_cons hopen, List.append_assoc,
    run_append hescaped, List.singleton_append, run_cons hclose]

end Lexing

/-! ### Reading in any place -/

/-- The bytes are these tokens, whatever stands around them. -/
def Reads (bytes : Bytes) (tokens : List Token) : Prop :=
  ∀ reversed rest, Lexing.run ⟨reversed, .between⟩ (bytes ++ rest) =
    Lexing.run ⟨tokens.reverse ++ reversed, .between⟩ rest

/-- The bytes are these tokens where no byte follows that continues a number. -/
def ReadsBefore (bytes : Bytes) (tokens : List Token) : Prop :=
  ∀ reversed rest, (∀ b ∈ rest.head?, endsNumeral b) →
    Lexing.run ⟨reversed, .between⟩ (bytes ++ rest) =
      Lexing.run ⟨tokens.reverse ++ reversed, .between⟩ rest

theorem Reads.before {bytes : Bytes} {tokens : List Token} (h : Reads bytes tokens) :
    ReadsBefore bytes tokens :=
  fun reversed rest _ ↦ h reversed rest

theorem Reads.append {xs ys : Bytes} {ts us : List Token} (hx : Reads xs ts) (hy : Reads ys us) :
    Reads (xs ++ ys) (ts ++ us) := by
  intro reversed rest
  rw [List.append_assoc, hx, hy, List.reverse_append, List.append_assoc]

theorem Reads.append_before {xs ys : Bytes} {ts us : List Token} (hx : Reads xs ts)
    (hy : ReadsBefore ys us) : ReadsBefore (xs ++ ys) (ts ++ us) := by
  intro reversed rest hrest
  rw [List.append_assoc, hx, hy _ _ hrest, List.reverse_append, List.append_assoc]

theorem ReadsBefore.append {xs ys : Bytes} {ts us : List Token} (hx : ReadsBefore xs ts)
    (hy : Reads ys us) (hends : ∃ b ∈ ys.head?, endsNumeral b) : Reads (xs ++ ys) (ts ++ us) := by
  intro reversed rest
  obtain ⟨b, hb, hbends⟩ := hends
  have hhead : ∀ c ∈ (ys ++ rest).head?, endsNumeral c := by
    intro c hc
    rw [List.head?_append, hb] at hc
    obtain rfl := Option.some.inj hc
    exact hbends
  rw [List.append_assoc, hx _ _ hhead, hy, List.reverse_append, List.append_assoc]

theorem reads_nil : Reads [] [] :=
  fun _ _ ↦ rfl

theorem reads_of_isSpace {b : UInt8} (h : Lexing.isSpace b) : Reads [b] [] := by
  intro reversed rest
  have hstep : Lexing.step ⟨reversed, .between⟩ b = some ⟨reversed, .between⟩ := by
    simp [Lexing.step, Lexing.open?, h, Lexing.goTo]
  rw [List.singleton_append, Lexing.run_cons hstep]
  rfl

theorem reads_newline (depth : ℕ) : Reads (newline depth) [] := by
  have hspaces : ∀ n, Reads (List.replicate n 0x20) [] := by
    intro n
    induction n with
    | zero => exact reads_nil
    | succ n ih => exact (reads_of_isSpace (b := 0x20) (by decide)).append ih
  exact (reads_of_isSpace (b := 0x0A) (by decide)).append (hspaces (2 * depth))

theorem reads_string (s : Bytes) : Reads (stringBytes s) [.string s] :=
  fun reversed rest ↦ Lexing.run_stringBytes reversed s rest

theorem reads_null : Reads nullBytes [.null] :=
  fun _ _ ↦ rfl

theorem reads_bool (b : Bool) : Reads (boolBytes b) [.bool b] := by
  cases b <;> exact fun _ _ ↦ rfl

/-! ### Whole documents -/

mutual

def tokens : Json → List Token
  | null => [.null]
  | bool b => [.bool b]
  | number n => [.number n]
  | string s => [.string s]
  | array [] => [.arrayOpen, .arrayClose]
  | array (item :: items) => [.arrayOpen] ++ tokens item ++ itemTokens items
  | object [] => [.objectOpen, .objectClose]
  | object ((name, value) :: members) =>
    [.objectOpen, .string name, .colon] ++ tokens value ++ memberTokens members

/-- The tokens of the items after the first and of the end of their array. -/
def itemTokens : List Json → List Token
  | [] => [.arrayClose]
  | item :: items => [.comma] ++ tokens item ++ itemTokens items

def memberTokens : List (Bytes × Json) → List Token
  | [] => [.objectClose]
  | (name, value) :: members =>
    [.comma, .string name, .colon] ++ tokens value ++ memberTokens members

end

/-- All numerals in the document are well formed. -/
inductive WellFormed : Json → Prop
  | null : WellFormed null
  | bool (b : Bool) : WellFormed (bool b)
  | number {n : Numeral} (h : n.WellFormed) : WellFormed (number n)
  | string (s : Bytes) : WellFormed (string s)
  | array {items : List Json} (h : ∀ item ∈ items, WellFormed item) : WellFormed (array items)
  | object {members : List (Bytes × Json)} (h : ∀ m ∈ members, WellFormed m.2) :
    WellFormed (object members)

/-- An opening mark or a comma and the line break behind it. -/
theorem reads_line {b : UInt8} {t : Token} (h : Reads [b] [t]) (depth : ℕ) :
    Reads (b :: newline depth) [t] :=
  h.append (reads_newline depth)

theorem reads_name {b : UInt8} {t : Token} (h : Reads [b] [t]) (depth : ℕ) (name : Bytes) :
    Reads (b :: newline depth ++ stringBytes name ++ [0x3A, 0x20]) [t, .string name, .colon] := by
  have hcolon : Reads [0x3A, 0x20] [.colon] := fun _ _ ↦ rfl
  exact ((reads_line h depth).append (reads_string name)).append hcolon

theorem head?_prettyItems (depth : ℕ) (items : List Json) :
    ∃ b ∈ (prettyItems depth items).head?, endsNumeral b := by
  cases items with
  | nil => exact ⟨0x0A, rfl, by decide⟩
  | cons item items => exact ⟨0x2C, rfl, by decide⟩

theorem head?_prettyMembers (depth : ℕ) (members : List (Bytes × Json)) :
    ∃ b ∈ (prettyMembers depth members).head?, endsNumeral b := by
  cases members with
  | nil => exact ⟨0x0A, rfl, by decide⟩
  | cons m members => exact ⟨0x2C, rfl, by decide⟩

theorem reads_comma : Reads [0x2C] [.comma] :=
  fun _ _ ↦ rfl

mutual

theorem readsBefore_prettyAt : ∀ {j : Json}, j.WellFormed → ∀ depth,
    ReadsBefore (prettyAt depth j) (tokens j)
  | null, _, _ => reads_null.before
  | bool b, _, _ => (reads_bool b).before
  | number n, .number h, _ => fun reversed _ hrest ↦ Lexing.run_numeral h reversed hrest
  | string s, _, _ => (reads_string s).before
  | array [], _, _ => Reads.before fun _ _ ↦ rfl
  | array (item :: items), .array h, depth => by
    have hopen : Reads [0x5B] [.arrayOpen] := fun _ _ ↦ rfl
    have hitem := readsBefore_prettyAt (h item List.mem_cons_self) (depth + 1)
    have hitems := reads_prettyItems (fun i hi ↦ h i (List.mem_cons_of_mem _ hi)) depth
    rw [prettyAt, tokens]
    exact (((reads_line hopen (depth + 1)).append_before hitem).append hitems
      (head?_prettyItems depth items)).before
  | object [], _, _ => Reads.before fun _ _ ↦ rfl
  | object ((name, value) :: members), .object h, depth => by
    have hopen : Reads [0x7B] [.objectOpen] := fun _ _ ↦ rfl
    have hvalue := readsBefore_prettyAt (h _ List.mem_cons_self) (depth + 1)
    have hmembers := reads_prettyMembers (fun m hm ↦ h m (List.mem_cons_of_mem _ hm)) depth
    rw [prettyAt, tokens]
    exact (((reads_name hopen (depth + 1) name).append_before hvalue).append hmembers
      (head?_prettyMembers depth members)).before

theorem reads_prettyItems : ∀ {items : List Json}, (∀ item ∈ items, item.WellFormed) → ∀ depth,
    Reads (prettyItems depth items) (itemTokens items)
  | [], _, depth => by
    have hclose : Reads [0x5D] [.arrayClose] := fun _ _ ↦ rfl
    exact (reads_newline depth).append hclose
  | item :: items, h, depth => by
    have hitem := readsBefore_prettyAt (h item List.mem_cons_self) (depth + 1)
    have hitems := reads_prettyItems (fun i hi ↦ h i (List.mem_cons_of_mem _ hi)) depth
    rw [prettyItems, itemTokens]
    exact ((reads_line reads_comma (depth + 1)).append_before hitem).append hitems
      (head?_prettyItems depth items)

theorem reads_prettyMembers : ∀ {members : List (Bytes × Json)},
    (∀ m ∈ members, m.2.WellFormed) → ∀ depth,
      Reads (prettyMembers depth members) (memberTokens members)
  | [], _, depth => by
    have hclose : Reads [0x7D] [.objectClose] := fun _ _ ↦ rfl
    exact (reads_newline depth).append hclose
  | (name, value) :: members, h, depth => by
    have hvalue := readsBefore_prettyAt (h _ List.mem_cons_self) (depth + 1)
    have hmembers := reads_prettyMembers (fun m hm ↦ h m (List.mem_cons_of_mem _ hm)) depth
    rw [prettyMembers, memberTokens]
    exact ((reads_name reads_comma (depth + 1) name).append_before hvalue).append hmembers
      (head?_prettyMembers depth members)

end

/-- Bytes are scanned as the tokens they are when they stand alone. -/
theorem tokens?_of_readsBefore {bytes : Bytes} {ts : List Token} (h : ReadsBefore bytes ts) :
    tokens? bytes = some ts := by
  have hread := h [] [] (by simp)
  rw [List.append_nil, List.append_nil] at hread
  change Lexing.run .start bytes = _
  rw [Lexing.start, hread]
  simp [Lexing.run, Lexing.finish?]

/-- The written form of a document has the tokens of the document. -/
theorem tokens?_pretty {j : Json} (h : j.WellFormed) : tokens? j.pretty = some j.tokens :=
  tokens?_of_readsBefore (readsBefore_prettyAt h 0)

end ArtifactIndex.Json
