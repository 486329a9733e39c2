import Sensitivity.Json.Parser
import Sensitivity.Json.Writer
import Sensitivity.Proofs.Json.Number

/-! Documents that are written are read again. The scanner finds the tokens of a value in its
text, however it is laid out, and the parser finds the value in its tokens. -/
namespace Sensitivity.Json

mutual

/-- The tokens that a value is written with. -/
def tokens : Json → List Token
  | .null => [.null]
  | .bool b => [.bool b]
  | .number lexeme => [.number lexeme]
  | .string text => [.string text]
  | .array [] => [.openArray,.closeArray]
  | .array (item :: items) => .openArray :: (item.tokens ++ itemTokens items)
  | .object [] => [.openObject,.closeObject]
  | .object ((key,value) :: members) =>
    .openObject :: .string key :: .colon :: (value.tokens ++ memberTokens members)

/-- The tokens behind an item, up to the end of its array. -/
def itemTokens : List Json → List Token
  | [] => [.closeArray]
  | item :: items => .comma :: (item.tokens ++ itemTokens items)

def memberTokens : List (Literal × Json) → List Token
  | [] => [.closeObject]
  | (key,value) :: members =>
    .comma :: .string key :: .colon :: (value.tokens ++ memberTokens members)

end

/-- Every number in the value is spelled as numbers are. -/
inductive WellFormed : Json → Prop
  | null : WellFormed .null
  | bool (b : Bool) : WellFormed (.bool b)
  | number (s : Spelling) (negative : Bool) : WellFormed (.number (s.chars negative))
  | string (text : Literal) : WellFormed (.string text)
  | array {items : List Json} (h : ∀ j ∈ items, WellFormed j) : WellFormed (.array items)
  | object {members : List (Literal × Json)} (h : ∀ m ∈ members, WellFormed m.2) :
    WellFormed (.object members)

/-! ### From characters to tokens -/

/-- The scanner reads these tokens in these characters, whatever fuel it has. -/
def Scans (cs : List Char) (ts : List Token) : Prop :=
  ∀ fuel, cs.length ≤ fuel → scanAll fuel cs = some ts

theorem scans_nil : Scans [] [] := by
  intro fuel _
  cases fuel <;> rfl

section

variable {c : Char} {cs rest : List Char} {t : Token} {ts : List Token}

theorem Scans.blank (hc : isBlank c) (h : Scans cs ts) : Scans (c :: cs) ts := by
  intro fuel hfuel
  cases fuel with
  | zero => simp at hfuel
  | succ fuel =>
    have hscan := h (fuel + 1) (by simp at hfuel; omega)
    rw [scanAll] at hscan ⊢
    rwa [List.dropWhile_cons_of_pos hc]

theorem Scans.blanks {bs : List Char} (hbs : ∀ b ∈ bs, isBlank b) (h : Scans cs ts) :
    Scans (bs ++ cs) ts := by
  induction bs with
  | nil => exact h
  | cons b bs ih =>
    exact (ih fun b' hb' => hbs b' (List.mem_cons_of_mem b hb')).blank (hbs b List.mem_cons_self)

theorem Scans.token (hc : isBlank c = false) (ht : scanToken (c :: cs) = some (t,rest))
    (hlength : rest.length ≤ cs.length) (h : Scans rest ts) : Scans (c :: cs) (t :: ts) := by
  intro fuel hfuel
  cases fuel with
  | zero => simp at hfuel
  | succ fuel =>
    have hrest := h fuel (by simp at hfuel; omega)
    rw [scanAll,List.dropWhile_cons_of_neg (by simp [hc])]
    simp [ht,hrest]

/-! ### Strings -/

def pieceOf (c : Char) : Piece :=
  if c.toNat < 0x20 ∧ c ≠ '\x08' ∧ c ≠ '\x0c' ∧ c ≠ '\n' ∧ c ≠ '\r' ∧ c ≠ '\t' then .unit c.toNat
  else .char c

theorem unitValue?_hexDigit {n : ℕ} (h : n < 0x20) :
    unitValue? '0' '0' (hexDigit (n / 16)) (hexDigit (n % 16)) = some n := by
  revert n
  decide

theorem scanPieces_writeChar (c : Char) (cs : List Char) :
    scanPieces (writeChar c ++ cs) = (scanPieces cs).map fun r => (pieceOf c :: r.1,r.2) := by
  have hescape : ∀ e, e ≠ 'u' → escaped? e = some c → pieceOf c = .char c →
      scanPieces ('\\' :: e :: cs) = (scanPieces cs).map fun r => (pieceOf c :: r.1,r.2) := by
    intro e hu he hp
    rw [scanPieces,he,hp]
    · cases scanPieces cs <;> rfl
    · exact fun _ _ _ _ _ h _ => hu h
  unfold writeChar
  split_ifs with hquote hbackslash _ _ _ _ _ hcontrol
  any_goals (subst c; exact hescape _ (by decide) rfl rfl)
  · have hp : pieceOf c = .unit c.toNat := if_pos (by simp_all)
    simp only [List.cons_append,List.nil_append,scanPieces,unitValue?_hexDigit hcontrol,hp]
    cases scanPieces cs <;> rfl
  · have hp : pieceOf c = .char c := if_neg fun h => hcontrol h.1
    rw [List.singleton_append,scanPieces,if_neg (by simp [hcontrol,hbackslash]),hp]
    · cases scanPieces cs <;> rfl
    all_goals simp_all

theorem joinPieces_pieceOf (c : Char) (ps : List Piece) :
    joinPieces (pieceOf c :: ps) = (joinPieces ps).map (c :: ·) := by
  unfold pieceOf
  split
  next h =>
    have hhigh : isHighSurrogate c.toNat = false := by simp [isHighSurrogate]; omega
    have hlow : isLowSurrogate c.toNat = false := by simp [isLowSurrogate]; omega
    match ps with
    | [] => simp [joinPieces,hhigh,hlow]
    | .char d :: ps => simp [joinPieces,hhigh,hlow]
    | .unit l :: ps => simp [joinPieces,hhigh,hlow]
  next => rw [joinPieces]

theorem scanPieces_flatMap (s rest : List Char) :
    scanPieces (s.flatMap writeChar ++ '"' :: rest) = some (s.map pieceOf,rest) := by
  induction s with
  | nil => rfl
  | cons c s ih =>
    rw [List.flatMap_cons,List.append_assoc,scanPieces_writeChar,ih]
    rfl

theorem joinPieces_map (s : List Char) : joinPieces (s.map pieceOf) = some s := by
  induction s with
  | nil => rfl
  | cons c s ih =>
    rw [List.map_cons,joinPieces_pieceOf,ih]
    rfl

theorem scans_literal (text : Literal) (h : Scans rest ts) :
    Scans (writeLiteral text ++ rest) (.string text :: ts) := by
  cases text with
  | none => exact .token (by decide) rfl (by simp; omega) h
  | some s =>
    simp only [writeLiteral,List.cons_append,List.append_assoc,List.nil_append]
    refine .token (by decide) ?_ (by simp; omega) h
    simp [scanToken,scanPieces_flatMap,joinPieces_map]

end

/-! ### Values -/

theorem ends_of_not_mem {c : Char} {cs : List Char} (hdigit : c.isDigit = false)
    (hc : c ∉ ['.','e','E']) : Ends (c :: cs) := by
  intro c' hc'
  obtain rfl := Option.some.inj hc'
  simpa [hdigit] using hc

theorem ends_blanks {bs rest : List Char} (hbs : ∀ b ∈ bs, isBlank b) (hrest : Ends rest) :
    Ends (bs ++ rest) := by
  cases bs with
  | nil => exact hrest
  | cons b bs =>
    have hb := hbs b List.mem_cons_self
    simp only [isBlank,decide_eq_true_eq] at hb
    refine ends_of_not_mem ?_ ?_ <;> rcases hb with rfl | rfl | rfl | rfl <;> decide

structure Layout.IsBlank (layout : Layout) : Prop where
  lineBreak : ∀ depth, ∀ c ∈ layout.lineBreak depth, isBlank c
  afterColon : ∀ c ∈ layout.afterColon, isBlank c

theorem Layout.isBlank_pretty : Layout.pretty.IsBlank where
  lineBreak depth c hc := by
    rcases List.mem_cons.mp hc with rfl | hc
    · rfl
    · rw [List.eq_of_mem_replicate hc]
      rfl
  afterColon c hc := by
    obtain rfl := List.mem_singleton.mp hc
    rfl

section

variable {layout : Layout} {rest : List Char} {ts : List Token}

/-- The tokens of a value are found in its text. -/
def Written (layout : Layout) (j : Json) : Prop :=
  ∀ depth {rest ts}, Ends rest → Scans rest ts → Scans (write layout depth j ++ rest) (j.tokens ++ ts)

theorem ends_writeItems (hlayout : layout.IsBlank) (items : List Json) (depth depth' : ℕ) :
    Ends (writeItems layout depth items ++ (layout.lineBreak depth' ++ ']' :: rest)) := by
  cases items with
  | nil =>
    rw [writeItems,List.nil_append]
    exact ends_blanks (hlayout.lineBreak depth') (ends_of_not_mem (by decide) (by decide))
  | cons item items =>
    rw [writeItems]
    exact ends_of_not_mem (by decide) (by decide)

theorem scans_writeItems (hlayout : layout.IsBlank) {items : List Json}
    (hitems : ∀ j ∈ items, Written layout j) (depth depth' : ℕ) (h : Scans rest ts) :
    Scans (writeItems layout depth items ++ (layout.lineBreak depth' ++ ']' :: rest))
      (itemTokens items ++ ts) := by
  induction items with
  | nil =>
    have hclose : Scans (']' :: rest) (.closeArray :: ts) := .token (by decide) rfl le_rfl h
    simpa [writeItems,itemTokens] using hclose.blanks (hlayout.lineBreak depth')
  | cons item items ih =>
    have htail := ih fun j hj => hitems j (List.mem_cons_of_mem item hj)
    have hitem :=
      hitems item List.mem_cons_self depth (ends_writeItems hlayout items depth depth') htail
    have hcomma := Scans.token (c := ',') (t := .comma) (by decide) rfl le_rfl
      (hitem.blanks (hlayout.lineBreak depth))
    simpa [writeItems,itemTokens] using hcomma

theorem ends_writeMembers (hlayout : layout.IsBlank) (members : List (Literal × Json))
    (depth depth' : ℕ) :
    Ends (writeMembers layout depth members ++ (layout.lineBreak depth' ++ '\x7d' :: rest)) := by
  cases members with
  | nil =>
    rw [writeMembers,List.nil_append]
    exact ends_blanks (hlayout.lineBreak depth') (ends_of_not_mem (by decide) (by decide))
  | cons member members =>
    rw [writeMembers]
    exact ends_of_not_mem (by decide) (by decide)

theorem scans_member (hlayout : layout.IsBlank) {value : Json} (hvalue : Written layout value)
    (key : Literal) (depth : ℕ) (hrest : Ends rest) (h : Scans rest ts) :
    Scans (writeLiteral key ++ ':' :: (layout.afterColon ++ (write layout depth value ++ rest)))
      (.string key :: .colon :: (value.tokens ++ ts)) :=
  scans_literal key (.token (by decide) rfl le_rfl
    ((hvalue depth hrest h).blanks hlayout.afterColon))

theorem scans_writeMembers (hlayout : layout.IsBlank) {members : List (Literal × Json)}
    (hmembers : ∀ m ∈ members, Written layout m.2) (depth depth' : ℕ) (h : Scans rest ts) :
    Scans (writeMembers layout depth members ++ (layout.lineBreak depth' ++ '\x7d' :: rest))
      (memberTokens members ++ ts) := by
  induction members with
  | nil =>
    have hclose : Scans ('\x7d' :: rest) (.closeObject :: ts) := .token (by decide) rfl le_rfl h
    simpa [writeMembers,memberTokens] using hclose.blanks (hlayout.lineBreak depth')
  | cons member members ih =>
    obtain ⟨key,value⟩ := member
    have htail := ih fun m hm => hmembers m (List.mem_cons_of_mem _ hm)
    have hmember := scans_member hlayout (hmembers _ List.mem_cons_self) key depth
      (ends_writeMembers hlayout members depth depth') htail
    have hcomma := Scans.token (c := ',') (t := .comma) (by decide) rfl le_rfl
      (hmember.blanks (hlayout.lineBreak depth))
    simpa [writeMembers,memberTokens] using hcomma

theorem Spelling.exists_chars (s : Spelling) (negative : Bool) :
    ∃ c cs, s.chars negative = c :: cs ∧ (c = '-' ∨ c.isDigit) := by
  obtain ⟨d,ds,hd,hdigit⟩ := s.digits_whole.head
  cases negative with
  | false => exact ⟨d,ds ++ s.fractionChars ++ s.exponentChars,by simp [chars,hd],.inr hdigit⟩
  | true => exact ⟨'-',s.whole ++ s.fractionChars ++ s.exponentChars,by simp [chars],.inl rfl⟩

theorem scans_number (s : Spelling) (negative : Bool) (hrest : Ends rest) (h : Scans rest ts) :
    Scans (s.chars negative ++ rest) (.number (s.chars negative) :: ts) := by
  have hscan := scanNumber_append (s := s) negative hrest
  obtain ⟨c,cs,hchars,hc⟩ := s.exists_chars negative
  have hstart : ∀ d : Char, d.isDigit = false → d ≠ '-' → c ≠ d := by
    rintro d hdigit hminus rfl
    rcases hc with hc | hc
    · exact hminus hc
    · exact Bool.false_ne_true (hdigit.symm.trans hc)
  rw [hchars,List.cons_append] at hscan ⊢
  refine .token ?_ ?_ (by simp) h
  · simp [isBlank,hstart ' ' (by decide) (by decide),hstart '\t' (by decide) (by decide),
      hstart '\n' (by decide) (by decide),hstart '\r' (by decide) (by decide)]
  · rw [scanToken,hscan]
    · rfl
    all_goals
      intro _ hother
      refine hstart _ ?_ ?_ (List.cons.inj hother).1 <;> decide

theorem written_array (hlayout : layout.IsBlank) {items : List Json}
    (ih : ∀ j ∈ items, Written layout j) : Written layout (.array items) := by
  intro depth rest ts hrest h
  cases items with
  | nil =>
    have hclose : Scans (']' :: rest) (.closeArray :: ts) := .token (by decide) rfl le_rfl h
    rw [write]
    exact .token (by decide) rfl (by simp) hclose
  | cons item items =>
    have htail := scans_writeItems hlayout (fun j hj => ih j (List.mem_cons_of_mem item hj))
      (depth + 1) depth h
    have hitem := ih item List.mem_cons_self (depth + 1)
      (ends_writeItems hlayout items (depth + 1) depth) htail
    have hopen := Scans.token (c := '[') (t := .openArray) (by decide) rfl le_rfl
      (hitem.blanks (hlayout.lineBreak (depth + 1)))
    simpa [write,tokens] using hopen

theorem written_object (hlayout : layout.IsBlank) {members : List (Literal × Json)}
    (ih : ∀ m ∈ members, Written layout m.2) : Written layout (.object members) := by
  intro depth rest ts hrest h
  cases members with
  | nil =>
    have hclose : Scans ('\x7d' :: rest) (.closeObject :: ts) := .token (by decide) rfl le_rfl h
    rw [write]
    exact .token (by decide) rfl (by simp) hclose
  | cons member members =>
    obtain ⟨key,value⟩ := member
    have htail := scans_writeMembers hlayout (fun m hm => ih m (List.mem_cons_of_mem _ hm))
      (depth + 1) depth h
    have hmember := scans_member hlayout (ih _ List.mem_cons_self) key (depth + 1)
      (ends_writeMembers hlayout members (depth + 1) depth) htail
    have hopen := Scans.token (c := '\x7b') (t := .openObject) (by decide) rfl le_rfl
      (hmember.blanks (hlayout.lineBreak (depth + 1)))
    simpa [write,tokens] using hopen

theorem WellFormed.written {j : Json} (hlayout : layout.IsBlank) (hj : j.WellFormed) :
    Written layout j := by
  induction hj with
  | null =>
    intro depth rest ts _ h
    rw [write]
    exact .token (by decide) rfl (by simp; omega) h
  | bool b =>
    intro depth rest ts _ h
    cases b <;> rw [write] <;> exact .token (by decide) rfl (by simp; omega) h
  | number s negative =>
    intro depth rest ts hrest h
    rw [write]
    exact scans_number s negative hrest h
  | string text =>
    intro depth rest ts _ h
    rw [write]
    exact scans_literal text h
  | array _ ih => exact written_array hlayout ih
  | object _ ih => exact written_object hlayout ih

end

/-! ### From tokens to values -/

theorem induct {P : Json → Prop} (null : P .null) (bool : ∀ b, P (.bool b))
    (number : ∀ lexeme, P (.number lexeme)) (string : ∀ text, P (.string text))
    (array : ∀ items, (∀ j ∈ items, P j) → P (.array items))
    (object : ∀ members, (∀ m ∈ members, P m.2) → P (.object members)) (j : Json) : P j :=
  match j with
  | .null => null
  | .bool b => bool b
  | .number lexeme => number lexeme
  | .string text => string text
  | .array items => array items fun j _ => induct null bool number string array object j
  | .object members => object members fun m _ => induct null bool number string array object m.2
termination_by sizeOf j
decreasing_by
  · have hlt := List.sizeOf_lt_of_mem ‹j ∈ items›
    simp only [Json.array.sizeOf_spec]
    omega
  · have hlt := List.sizeOf_lt_of_mem ‹m ∈ members›
    obtain ⟨key,value⟩ := m
    simp only [Json.object.sizeOf_spec,Prod.mk.sizeOf_spec] at hlt ⊢
    omega

theorem exists_tokens (j : Json) : ∃ t ts, j.tokens = t :: ts ∧ t ≠ .closeArray := by
  cases j with
  | null => exact ⟨.null,[],by rw [tokens],by decide⟩
  | bool b => exact ⟨.bool b,[],by rw [tokens],by simp⟩
  | number lexeme => exact ⟨.number lexeme,[],by rw [tokens],by simp⟩
  | string text => exact ⟨.string text,[],by rw [tokens],by simp⟩
  | array items => cases items <;> exact ⟨.openArray,_,by rw [tokens],by decide⟩
  | object members =>
    cases members with
    | nil => exact ⟨.openObject,_,by rw [tokens],by decide⟩
    | cons member members => exact ⟨.openObject,_,by rw [tokens],by decide⟩

/-- The parser finds a value at the front of its tokens, two steps for each token being enough. -/
def Parsed (j : Json) : Prop :=
  ∀ {fuel} (rest : List Token), 2 * j.tokens.length ≤ fuel →
    parseValue fuel (j.tokens ++ rest) = some (j,rest)

theorem parsed_of_succ {j : Json} (h : ∀ (fuel : ℕ) (rest : List Token),
    2 * j.tokens.length ≤ fuel + 1 → parseValue (fuel + 1) (j.tokens ++ rest) = some (j,rest)) :
    Parsed j := by
  intro fuel rest hfuel
  obtain ⟨t,ts,ht,-⟩ := j.exists_tokens
  obtain ⟨fuel,rfl⟩ : ∃ n, fuel = n + 1 := ⟨fuel - 1,by simp [ht] at hfuel; omega⟩
  exact h fuel rest hfuel

theorem parseItems_tokens {item : Json} {items : List Json} (hitem : Parsed item)
    (hitems : ∀ j ∈ items, Parsed j) {fuel : ℕ}
    (hfuel : 2 * (item.tokens.length + (itemTokens items).length) ≤ fuel) (rest : List Token) :
    parseItems fuel (item.tokens ++ (itemTokens items ++ rest)) = some (item :: items,rest) := by
  induction items generalizing item fuel with
  | nil =>
    simp only [itemTokens,List.length_singleton] at hfuel
    obtain ⟨fuel,rfl⟩ : ∃ n, fuel = n + 1 := ⟨fuel - 1,by omega⟩
    rw [parseItems,hitem _ (by omega)]
    simp [itemTokens]
  | cons next items ih =>
    simp only [itemTokens,List.length_cons,List.length_append] at hfuel
    obtain ⟨fuel,rfl⟩ : ∃ n, fuel = n + 1 := ⟨fuel - 1,by omega⟩
    have hrest : 2 * (next.tokens.length + (itemTokens items).length) ≤ fuel := by omega
    rw [parseItems,hitem _ (by omega)]
    simp [itemTokens,ih (hitems next List.mem_cons_self)
      (fun j hj => hitems j (List.mem_cons_of_mem next hj)) hrest]

theorem parseMembers_tokens {key : Literal} {value : Json} {members : List (Literal × Json)}
    (hvalue : Parsed value) (hmembers : ∀ m ∈ members, Parsed m.2) {fuel : ℕ}
    (hfuel : 2 * (value.tokens.length + (memberTokens members).length) ≤ fuel)
    (rest : List Token) :
    parseMembers fuel (.string key :: .colon :: (value.tokens ++ (memberTokens members ++ rest))) =
      some ((key,value) :: members,rest) := by
  induction members generalizing key value fuel with
  | nil =>
    simp only [memberTokens,List.length_singleton] at hfuel
    obtain ⟨fuel,rfl⟩ : ∃ n, fuel = n + 1 := ⟨fuel - 1,by omega⟩
    rw [parseMembers,hvalue _ (by omega)]
    simp [memberTokens]
  | cons next members ih =>
    obtain ⟨nextKey,nextValue⟩ := next
    simp only [memberTokens,List.length_cons,List.length_append] at hfuel
    obtain ⟨fuel,rfl⟩ : ∃ n, fuel = n + 1 := ⟨fuel - 1,by omega⟩
    have hnext : Parsed nextValue := hmembers _ List.mem_cons_self
    have hrest : 2 * (nextValue.tokens.length + (memberTokens members).length) ≤ fuel := by omega
    rw [parseMembers,hvalue _ (by omega)]
    simp [memberTokens,ih hnext (fun m hm => hmembers m (List.mem_cons_of_mem _ hm)) hrest]

theorem parsed (j : Json) : Parsed j := by
  induction j using induct with
  | null => exact parsed_of_succ fun _ _ _ => by rw [tokens,List.singleton_append,parseValue]
  | bool b => exact parsed_of_succ fun _ _ _ => by rw [tokens,List.singleton_append,parseValue]
  | number lexeme =>
    exact parsed_of_succ fun _ _ _ => by rw [tokens,List.singleton_append,parseValue]
  | string text => exact parsed_of_succ fun _ _ _ => by rw [tokens,List.singleton_append,parseValue]
  | array items ih =>
    refine parsed_of_succ fun fuel rest hfuel => ?_
    cases items with
    | nil => rw [tokens,List.cons_append,List.singleton_append,parseValue]
    | cons item items =>
      simp only [tokens,List.length_cons,List.length_append] at hfuel
      have hall : 2 * (item.tokens.length + (itemTokens items).length) ≤ fuel := by omega
      obtain ⟨t,ts,ht,hne⟩ := item.exists_tokens
      rw [tokens,List.cons_append,List.append_assoc,parseValue,
        parseItems_tokens (ih item List.mem_cons_self)
          (fun j hj => ih j (List.mem_cons_of_mem item hj)) hall]
      · rfl
      · rw [ht]
        exact fun _ h => hne (List.cons.inj h).1
  | object members ih =>
    refine parsed_of_succ fun fuel rest hfuel => ?_
    cases members with
    | nil => rw [tokens,List.cons_append,List.singleton_append,parseValue]
    | cons member members =>
      obtain ⟨key,value⟩ := member
      simp only [tokens,List.length_cons,List.length_append] at hfuel
      have hvalue : Parsed value := ih _ List.mem_cons_self
      have hall : 2 * (value.tokens.length + (memberTokens members).length) ≤ fuel := by omega
      rw [tokens,List.cons_append,List.cons_append,List.cons_append,List.append_assoc,parseValue,
        parseMembers_tokens hvalue (fun m hm => ih m (List.mem_cons_of_mem _ hm)) hall]
      · rfl
      · exact fun _ h => Token.noConfusion (List.cons.inj h).1

theorem ofTokens?_tokens (j : Json) : ofTokens? j.tokens = some j := by
  have h := parsed j [] le_rfl
  rw [List.append_nil] at h
  rw [ofTokens?,h]

/-- The value of a text is the value that was written. -/
theorem WellFormed.ofText?_pretty {j : Json} (hj : j.WellFormed) : ofText? j.pretty = some j := by
  have hscan := hj.written Layout.isBlank_pretty 0 ends_nil scans_nil
  rw [List.append_nil,List.append_nil] at hscan
  rw [ofText?,pretty,scan,String.toList_ofList,hscan _ le_rfl]
  exact ofTokens?_tokens j

end Sensitivity.Json
