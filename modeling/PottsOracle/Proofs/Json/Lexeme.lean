import PottsOracle.Json.Token
import PottsOracle.Proofs.Text.Digits

/-!
# Tokens and the characters they are read from

Every part of a document is read from the characters it takes and from no others: with less behind
it, it is read just the same.  So the space between tokens makes no difference.
-/

namespace PottsOracle

/-- A value without parts that is no text; integers have a limited count of digits. -/
def Value.isLeaf : Value → Bool
  | .null | .bool _ | .float _ => true
  | .int n => (Text.digits n.natAbs).length ≤ Text.maxIntegerDigits
  | .text _ | .list _ | .record _ => false

namespace Json

variable {α : Type} {s rest : Text}

/-- What is read from a text is read from the characters in front of `rest`, whatever part of `rest`
stands behind them. -/
def IsReadFrom (read : Text → Option (α × Text)) (x : α) (s rest : Text) : Prop :=
  ∃ l, s = l ++ rest ∧ ∀ behind, behind <+: rest → read (l ++ behind) = some (x, behind)

namespace IsReadFrom

variable {read : Text → Option (α × Text)} {x : α}

theorem suffix (h : IsReadFrom read x s rest) : rest <:+ s :=
  let ⟨l, hl, _⟩ := h
  ⟨l, hl.symm⟩

end IsReadFrom

/-! ## Texts -/

theorem lowSurrogateNext?_eq_some {low : CodePoint} (h : lowSurrogateNext? s = some low) :
    ∃ a b c d rest, s = 92 :: 117 :: a :: b :: c :: d :: rest ∧
      (hexNumber? a b c d).filter Text.isLowSurrogate = some low := by
  revert h
  fun_cases lowSurrogateNext? s <;> intro h
  case case1 a b c d rest => exact ⟨a, b, c, d, rest, rfl, h⟩
  case case2 => simp at h

theorem lowSurrogateNext?_of_isPrefix {behind : Text} {low : CodePoint} (hs : behind <+: s)
    (h : lowSurrogateNext? behind = some low) : lowSurrogateNext? s = some low := by
  obtain ⟨a, b, c, d, after, rfl, hlow⟩ := lowSurrogateNext?_eq_some h
  obtain ⟨more, rfl⟩ := hs
  exact hlow

/-- A backslash and a letter. -/
theorem readCodePoint?_escape {c : CodePoint} (hc : c ≠ 117) :
    readCodePoint? (92 :: c :: s) = (escapeValue? c).map (·, s) := by
  rw [readCodePoint?]
  rintro _ _ _ _ _ rfl
  exact absurd rfl hc

/-- A character that stands for itself. -/
theorem readCodePoint?_plain {c : CodePoint} (hc : ¬(c < 32 ∨ c = 34 ∨ c = 92)) :
    readCodePoint? (c :: s) = some (c, s) := by
  rw [readCodePoint?, if_neg hc]
  all_goals simp_all

theorem readCodePoint?_isReadFrom {c : CodePoint} (h : readCodePoint? s = some (c, rest)) :
    IsReadFrom readCodePoint? c s rest := by
  revert h
  fun_cases readCodePoint? s <;> intro h
  case case2 a b c d behind u hu low hlow =>
    simp only [Option.some.injEq, Prod.mk.injEq] at h
    split at hlow
    case isFalse => simp at hlow
    case isTrue hhigh =>
      obtain ⟨a', b', c', d', after, rfl, hpair⟩ := lowSurrogateNext?_eq_some hlow
      refine ⟨[92, 117, a, b, c, d, 92, 117, a', b', c', d'], by simp [← h.2], fun tail _ => ?_⟩
      simp [readCodePoint?, hu, hhigh, lowSurrogateNext?, hpair, h.1]
  case case3 a b c d after u hu hnone =>
    simp only [Option.some.injEq, Prod.mk.injEq] at h
    obtain ⟨rfl, rfl⟩ := h
    refine ⟨[92, 117, a, b, c, d], by simp, fun behind hbehind => ?_⟩
    -- where no second half of a pair follows, none follows if less stands behind
    have hbehind : (if Text.isHighSurrogate u then lowSurrogateNext? behind else none) = none := by
      split
      case isFalse => rfl
      case isTrue hhigh =>
        rw [if_pos hhigh] at hnone
        cases hlow : lowSurrogateNext? behind with
        | none => rfl
        | some low => simp [lowSurrogateNext?_of_isPrefix hbehind hlow] at hnone
    simp [readCodePoint?, hu, hbehind]
  case case4 c behind _ =>
    obtain ⟨value, hvalue, heq⟩ := Option.map_eq_some_iff.1 h
    simp only [Prod.mk.injEq] at heq
    refine ⟨[92, c], by simp [heq.2], fun behind hbehind => ?_⟩
    have hc : c ≠ 117 := by
      rintro rfl
      simp [escapeValue?] at hvalue
    simp [readCodePoint?_escape hc, hvalue, heq.1]
  case case6 c behind _ _ hc =>
    simp only [Option.some.injEq, Prod.mk.injEq] at h
    exact ⟨[c], by simp [h.2], fun behind hbehind => by
      simp [readCodePoint?_plain (h.1 ▸ hc), h.1]⟩
  all_goals simp at h

/-- A text goes on with a code point. -/
theorem readText?_of_readCodePoint? {next t : Text} {c : CodePoint}
    (hc : readCodePoint? s = some (c, next)) (ht : readText? next = some (t, rest)) :
    readText? s = some (c :: t, rest) := by
  rw [readText?]
  · split <;> simp_all
  · rintro behind rfl
    simp [readCodePoint?] at hc

theorem readText?_isReadFrom {t : Text} (h : readText? s = some (t, rest)) :
    IsReadFrom readText? t s rest := by
  fun_induction readText? s generalizing t with
  | case1 behind =>
    simp only [Option.some.injEq, Prod.mk.injEq] at h
    exact ⟨[34], by simp [h.2], fun _ _ => by simp [readText?, h.1]⟩
  | case2 => simp at h
  | case3 s hs c next hc ih =>
    obtain ⟨⟨u, after⟩, hu, heq⟩ := Option.map_eq_some_iff.1 h
    simp only [Prod.mk.injEq] at heq
    obtain ⟨l, hl, hread⟩ := ih (heq.2 ▸ hu)
    obtain ⟨k, hk, hpoint⟩ := readCodePoint?_isReadFrom hc
    refine ⟨k ++ l, by simp [hk, hl], fun behind hbehind => ?_⟩
    have hpoint := hpoint (l ++ behind) (by simpa [hl] using hbehind)
    rw [List.append_assoc, readText?_of_readCodePoint? hpoint (hread behind hbehind), heq.1]

/-! ## Numbers -/

theorem takeWhile_append_dropWhile_isPrefix {p : CodePoint → Bool} {behind : Text}
    (h : behind <+: s.dropWhile p) :
    (s.takeWhile p ++ behind).takeWhile p = s.takeWhile p ∧
      (s.takeWhile p ++ behind).dropWhile p = behind := by
  have hall : ∀ c ∈ s.takeWhile p, p c = true :=
    List.all_eq_true.1 List.all_takeWhile
  rw [List.takeWhile_append_of_pos hall, List.dropWhile_append_of_pos hall]
  cases behind with
  | nil => simp
  | cons c behind =>
    have hc : p c = false := by
      obtain ⟨more, hmore⟩ := h
      have := List.head?_dropWhile_not p s
      simp [← hmore] at this
      exact this
    simp [hc]

/-- Digits end where no digit follows, also if less follows. -/
theorem readDigits_isReadFrom (s : Text) : ∃ l, s = l ++ (readDigits s).2 ∧
    ∀ behind, behind <+: (readDigits s).2 →
      readDigits (l ++ behind) = ((readDigits s).1, behind) := by
  refine ⟨s.takeWhile isDigit, List.takeWhile_append_dropWhile.symm, fun behind h => ?_⟩
  obtain ⟨htake, hdrop⟩ := takeWhile_append_dropWhile_isPrefix h
  simp [readDigits, htake, hdrop]

theorem readFraction_isReadFrom {ds : List Nat} (h : readFraction s = some (ds, rest)) :
    IsReadFrom readFraction ds s rest := by
  revert h
  fun_cases readFraction s <;> intro h
  case case2 behind es after hne hd =>
    simp only [Option.some.injEq, Prod.mk.injEq] at h
    obtain ⟨rfl, rfl⟩ := h
    obtain ⟨l, hl, hread⟩ := readDigits_isReadFrom behind
    rw [hd] at hl hread
    exact ⟨46 :: l, by simp [hl], fun tail htail => by simp [readFraction, hread tail htail]⟩
  all_goals simp at h

theorem readDigits_eq_nil_of_isPrefix {behind : Text} (hs : behind <+: s)
    (h : (readDigits s).1 = []) : (readDigits behind).1 = [] := by
  obtain ⟨more, rfl⟩ := hs
  cases behind with
  | nil => rfl
  | cons c behind =>
    cases hc : isDigit c <;> simp_all [readDigits]

theorem readFraction_eq_none_iff :
    readFraction s = none ↔ ∀ rest, s = 46 :: rest → (readDigits rest).1 = [] := by
  fun_cases readFraction s <;> simp_all

theorem readFraction_of_isPrefix {behind : Text} (hs : behind <+: s) (h : readFraction s = none) :
    readFraction behind = none := by
  rw [readFraction_eq_none_iff] at h ⊢
  rintro rest rfl
  obtain ⟨more, rfl⟩ := hs
  exact readDigits_eq_nil_of_isPrefix (List.prefix_append rest more) (h _ rfl)

theorem readSign_isReadFrom (s : Text) : ∃ l, s = l ++ (readSign s).2 ∧
    ∀ behind, behind <+: (readSign s).2 → readSign (l ++ behind) = ((readSign s).1, behind) := by
  fun_cases readSign s
  case case1 rest => exact ⟨[45], rfl, fun _ _ => rfl⟩
  case case2 rest => exact ⟨[43], rfl, fun _ _ => rfl⟩
  case case3 hminus hplus =>
    refine ⟨[], rfl, fun behind hbehind => ?_⟩
    obtain ⟨more, rfl⟩ := hbehind
    rw [List.nil_append, readSign]
    · rintro rest rfl
      exact hminus _ rfl
    · rintro rest rfl
      exact hplus _ rfl

theorem readSign_isPrefix {behind : Text} (hs : behind <+: s) :
    (readSign behind).2 <+: (readSign s).2 := by
  obtain ⟨more, rfl⟩ := hs
  fun_cases readSign behind
  case case1 rest => exact List.prefix_append rest more
  case case2 rest => exact List.prefix_append rest more
  case case3 hminus hplus =>
    cases behind with
    | nil => exact List.nil_prefix
    | cons c rest =>
      rw [readSign]
      · exact List.prefix_append ..
      all_goals simp_all

theorem readExponent_isReadFrom {e : Int} (h : readExponent s = some (e, rest)) :
    IsReadFrom readExponent e s rest := by
  revert h
  fun_cases readExponent s <;> intro h
  case case2 c behind hc es after hne hd =>
    simp only [Option.some.injEq, Prod.mk.injEq] at h
    obtain ⟨rfl, rfl⟩ := h
    obtain ⟨k, hk, hsign⟩ := readSign_isReadFrom behind
    obtain ⟨l, hl, hread⟩ := readDigits_isReadFrom (readSign behind).2
    rw [hd] at hl hread
    refine ⟨c :: k ++ l, by rw [List.append_assoc, ← hl, List.cons_append, ← hk],
      fun tail htail => ?_⟩
    have hsign := hsign (l ++ tail) (by simpa [hl] using htail)
    simp only [List.cons_append, List.append_assoc, readExponent, if_pos hc, hsign,
      hread tail htail]
  all_goals simp at h

theorem readExponent_eq_none_iff : readExponent s = none ↔
    ∀ c rest, s = c :: rest → c = 101 ∨ c = 69 → (readDigits (readSign rest).2).1 = [] := by
  fun_cases readExponent s <;> simp_all
  tauto

theorem readExponent_of_isPrefix {behind : Text} (hs : behind <+: s) (h : readExponent s = none) :
    readExponent behind = none := by
  rw [readExponent_eq_none_iff] at h ⊢
  rintro c rest rfl hc
  obtain ⟨more, rfl⟩ := hs
  have hsign := readSign_isPrefix (List.prefix_append rest more)
  exact readDigits_eq_nil_of_isPrefix hsign (h _ _ rfl hc)

theorem readInteger?_isReadFrom {ds : List Nat} (h : readInteger? s = some (ds, rest)) :
    IsReadFrom readInteger? ds s rest := by
  revert h
  fun_cases readInteger? s <;> intro h
  case case1 behind =>
    simp only [Option.some.injEq, Prod.mk.injEq] at h
    exact ⟨[48], by simp [h.2], fun _ _ => by simp [readInteger?, h.1]⟩
  case case3 es after hne hzero hd =>
    simp only [Option.some.injEq, Prod.mk.injEq] at h
    obtain ⟨rfl, rfl⟩ := h
    obtain ⟨l, hl, hread⟩ := readDigits_isReadFrom s
    rw [hd] at hl hread
    refine ⟨l, hl, fun tail htail => ?_⟩
    rw [readInteger?]
    · simp [hread tail htail]
    · -- with a zero in front the zero alone would be the integer
      rintro more hmore
      cases l with
      | nil =>
        have := hread [] List.nil_prefix
        simp_all [readDigits]
      | cons c l =>
        simp only [List.cons_append, List.cons.injEq] at hmore
        exact hzero _ (hmore.1 ▸ hl)
  all_goals simp at h

theorem readNumber?_isReadFrom {negative : Bool} {token : Token}
    (h : readNumber? negative s = some (token, rest)) :
    IsReadFrom (readNumber? negative) token s rest := by
  cases hw : readInteger? s with
  | none => simp [readNumber?, hw] at h
  | some wr =>
    obtain ⟨whole, behind⟩ := wr
    obtain ⟨l, hl, hwhole⟩ := readInteger?_isReadFrom hw
    simp only [readNumber?, hw, Option.bind_eq_bind, Option.bind_some] at h
    split at h
    case h_1 places after hf =>
      obtain ⟨k, rfl, hplaces⟩ := readFraction_isReadFrom hf
      cases he : readExponent after with
      | none =>
        simp only [he, Option.getD_none, Option.pure_def, Option.some.injEq, Prod.mk.injEq] at h
        obtain ⟨rfl, rfl⟩ := h
        refine ⟨l ++ k, by simp [hl], fun tail htail => ?_⟩
        have hwhole := hwhole (k ++ tail) (by simpa using htail)
        simp [readNumber?, hwhole, hplaces tail htail, readExponent_of_isPrefix htail he]
      | some er =>
        obtain ⟨m, rfl, hexponent⟩ := readExponent_isReadFrom (e := er.1) he
        simp only [he, Option.getD_some, Option.pure_def, Option.some.injEq, Prod.mk.injEq] at h
        obtain ⟨rfl, rfl⟩ := h
        refine ⟨l ++ (k ++ m), by simp [hl], fun tail htail => ?_⟩
        have hwhole := hwhole (k ++ (m ++ tail)) (by simpa using htail)
        have hplaces := hplaces (m ++ tail) (by simpa using htail)
        simp [readNumber?, hwhole, hplaces, hexponent tail htail]
    case h_2 e after hf he =>
      obtain ⟨k, rfl, hexponent⟩ := readExponent_isReadFrom he
      simp only [Option.pure_def, Option.some.injEq, Prod.mk.injEq] at h
      obtain ⟨rfl, rfl⟩ := h
      refine ⟨l ++ k, by simp [hl], fun tail htail => ?_⟩
      have hbehind : k ++ tail <+: k ++ after := by simpa using htail
      simp [readNumber?, hwhole _ hbehind, readFraction_of_isPrefix hbehind hf,
        hexponent tail htail]
    case h_3 hf he =>
      simp only [Option.pure_def, Option.some.injEq, Prod.mk.injEq] at h
      obtain ⟨rfl, rfl⟩ := h
      refine ⟨l, hl, fun tail htail => ?_⟩
      simp [readNumber?, hwhole tail htail, readFraction_of_isPrefix htail hf,
        readExponent_of_isPrefix htail he]

/-! ## Words -/

theorem words_eq : words = [
    ([110, 117, 108, 108], .null), ([116, 114, 117, 101], .bool true),
    ([102, 97, 108, 115, 101], .bool false), ([78, 97, 78], .float Binary64.notANumber),
    ([73, 110, 102, 105, 110, 105, 116, 121], .float Binary64.infinity),
    ([45, 73, 110, 102, 105, 110, 105, 116, 121], .float (-Binary64.infinity))] := by
  simp [words, Text.ofString]

/-- A word starts with one of a few characters. -/
theorem readWord?_cons_eq_none {c : CodePoint} (hc : c ∉ [110, 116, 102, 78, 73, 45]) :
    readWord? (c :: s) = none := by
  simp only [List.mem_cons, List.not_mem_nil, or_false, not_or] at hc
  simp [readWord?, words_eq]
  grind

/-- Only an infinity is a word with a minus sign. -/
theorem readWord?_minus_eq_none (hs : ∀ rest, s ≠ 73 :: rest) : readWord? (45 :: s) = none := by
  cases s <;> simp [readWord?, words_eq]
  grind

theorem readWord?_of_isPrefix {behind : Text} (hs : behind <+: s) (h : readWord? s = none) :
    readWord? behind = none := by
  simp only [readWord?, Option.map_eq_none_iff, List.find?_eq_none, List.isPrefixOf_iff_prefix]
    at h ⊢
  exact fun entry hentry hbegins => h entry hentry (hbegins.trans hs)

theorem readWord?_isReadFrom {v : Value} (h : readWord? s = some (v, rest)) :
    IsReadFrom readWord? v s rest := by
  obtain ⟨⟨word, w⟩, hfind, heq⟩ := Option.map_eq_some_iff.1 h
  simp only [Prod.mk.injEq] at heq
  obtain ⟨hword, before, more, hwords, hbefore⟩ := List.find?_eq_some_iff_append.1 hfind
  obtain ⟨after, rfl⟩ := List.isPrefixOf_iff_prefix.1 hword
  obtain rfl : after = rest := by rw [← heq.2, List.drop_left]
  refine ⟨word, rfl, fun tail htail => ?_⟩
  have hbegins : word ++ tail <+: word ++ after := by simpa using htail
  refine Option.map_eq_some_iff.2 ⟨(word, w), List.find?_eq_some_iff_append.2
    ⟨by simp, before, more, hwords, fun entry hentry => ?_⟩, by simp [heq.1]⟩
  have hentry := hbefore entry hentry
  simp only [Bool.not_eq_true', Bool.eq_false_iff, ne_eq, List.isPrefixOf_iff_prefix] at hentry ⊢
  exact fun hshort => hentry (hshort.trans hbegins)

/-! ## Tokens -/

/-- What is left is shorter, so the characters that are taken start with the first one. -/
theorem exists_cons_of_length_lt {l : Text} {c : CodePoint} (h : c :: s = l ++ rest)
    (hlength : rest.length < (c :: s).length) : ∃ k, l = c :: k ∧ s = k ++ rest := by
  cases l with
  | nil => simp_all
  | cons d k => simp_all

theorem readToken?_isReadFrom {token : Token} (h : readToken? s = some (token, rest)) :
    IsReadFrom readToken? token s rest := by
  revert h
  fun_cases readToken? s <;> intro h
  case case1 => simp at h
  case case2 c behind first hmark =>
    simp only [Option.some.injEq, Prod.mk.injEq] at h
    exact ⟨[c], by simp [h.2], fun _ _ => by simp [readToken?, hmark, h.1]⟩
  case case3 behind hmark =>
    obtain ⟨⟨t, after⟩, ht, heq⟩ := Option.map_eq_some_iff.1 h
    simp only [Prod.mk.injEq] at heq
    obtain ⟨l, rfl, hread⟩ := readText?_isReadFrom (heq.2 ▸ ht)
    exact ⟨34 :: l, by simp, fun tail htail => by
      simp [readToken?, hmark, hread tail htail, heq.1]⟩
  case case4 c behind hmark hquote v after hw =>
    simp only [Option.some.injEq, Prod.mk.injEq] at h
    obtain ⟨rfl, rfl⟩ := h
    obtain ⟨l, hl, hread⟩ := readWord?_isReadFrom hw
    obtain ⟨k, rfl, rfl⟩ := exists_cons_of_length_lt hl (readWord?_length hw)
    refine ⟨c :: k, by simp, fun tail htail => ?_⟩
    have hword := hread tail htail
    rw [List.cons_append] at hword
    simp [readToken?, hmark, hquote, hword]
  case case5 behind hmark hquote hw =>
    obtain ⟨l, rfl, hread⟩ := readNumber?_isReadFrom h
    refine ⟨45 :: l, by simp, fun tail htail => ?_⟩
    have hbegins : 45 :: (l ++ tail) <+: 45 :: (l ++ rest) := by simpa using htail
    simp [readToken?, hmark, hquote, readWord?_of_isPrefix hbegins hw, hread tail htail]
  case case6 c behind hmark hquote hw hminus =>
    obtain ⟨l, hl, hread⟩ := readNumber?_isReadFrom h
    obtain ⟨k, rfl, rfl⟩ := exists_cons_of_length_lt hl (readNumber?_length h)
    refine ⟨c :: k, by simp, fun tail htail => ?_⟩
    have hbegins : c :: (k ++ tail) <+: c :: (k ++ rest) := by simpa using htail
    have hnumber := hread tail htail
    rw [List.cons_append] at hnumber
    simp [readToken?, hmark, hquote, readWord?_of_isPrefix hbegins hw, hminus, hnumber]

/-- A token of a text is read somewhere in it, if it is not the one that ends a broken text. -/
theorem exists_readToken?_of_mem_tokens {t : Text} {token : Token} (h : token ∈ tokens t)
    (hbroken : token ≠ .broken) : ∃ s rest, s <:+ t ∧ readToken? s = some (token, rest) := by
  fun_induction tokens t with
  | case1 => simp at h
  | case2 c rest _ ih =>
    obtain ⟨s, behind, hs, hread⟩ := ih h
    exact ⟨s, behind, hs.trans (List.suffix_cons c rest), hread⟩
  | case3 => simp_all
  | case4 c rest _ first behind hread ih =>
    rcases List.mem_cons.1 h with rfl | h
    · exact ⟨_, _, List.suffix_rfl, hread⟩
    · obtain ⟨s, after, hs, hsread⟩ := ih h
      exact ⟨s, after, hs.trans (readToken?_isReadFrom hread).suffix, hsread⟩

theorem tokens_space {c : CodePoint} (hc : isSpace c = true) : tokens (c :: s) = tokens s := by
  rw [tokens, if_pos hc]

theorem isSpace_eq_true_iff {c : CodePoint} :
    isSpace c = true ↔ c = 32 ∨ c = 9 ∨ c = 10 ∨ c = 13 := by
  simp [isSpace, or_assoc]

/-- No token starts with a space. -/
theorem isSpace_eq_false_of_readToken? {c : CodePoint} {token : Token}
    (h : readToken? (c :: s) = some (token, rest)) : isSpace c = false := by
  by_contra hc
  rw [Bool.not_eq_false, isSpace_eq_true_iff] at hc
  have hword : readWord? (c :: s) = none :=
    readWord?_cons_eq_none (by rcases hc with rfl | rfl | rfl | rfl <;> decide)
  rcases hc with rfl | rfl | rfl | rfl <;>
    simp [readToken?, mark?, hword, readNumber?, readInteger?, readDigits, isDigit] at h

theorem tokens_cons (c : CodePoint) (s : Text) : tokens (c :: s) =
    if isSpace c then tokens s
    else match readToken? (c :: s) with
      | none => [.broken]
      | some (token, behind) => token :: tokens behind := by
  rw [tokens]
  split_ifs
  · rfl
  · split <;> simp_all

theorem tokens_of_readToken? {token : Token} (h : readToken? s = some (token, rest)) :
    tokens s = token :: tokens rest := by
  cases s with
  | nil => simp [readToken?] at h
  | cons c s =>
    rw [tokens_cons, isSpace_eq_false_of_readToken? h, h]
    rfl

theorem lt_ten_of_mem_readDigits {s : Text} {d : Nat} (h : d ∈ (readDigits s).1) : d < 10 := by
  obtain ⟨c, hc, rfl⟩ := List.mem_map.1 h
  have hdigit := List.all_eq_true.1 List.all_takeWhile c hc
  simp only [isDigit, Bool.and_eq_true, decide_eq_true_eq] at hdigit
  have : c ≤ 57 := hdigit.2
  omega

theorem readInteger?_digits {ds : List Nat} (h : readInteger? s = some (ds, rest)) :
    ds ≠ [] ∧ ∀ d ∈ ds, d < 10 := by
  revert h
  fun_cases readInteger? s <;> intro h
  case case1 =>
    simp only [Option.some.injEq, Prod.mk.injEq] at h
    simp [← h.1]
  case case2 => simp at h
  case case3 es after hne _ hd =>
    simp only [Option.some.injEq, Prod.mk.injEq] at h
    rw [← h.1]
    exact ⟨hne, fun d hmem => lt_ten_of_mem_readDigits (by rw [hd]; exact hmem)⟩

theorem isLeaf_of_readWord? {v : Value} (h : readWord? s = some (v, rest)) :
    v.isLeaf = true := by
  obtain ⟨⟨word, w⟩, hfind, heq⟩ := Option.map_eq_some_iff.1 h
  have hall : ∀ entry ∈ words, entry.2.isLeaf = true := by simp [words, Value.isLeaf]
  simp only [Prod.mk.injEq] at heq
  exact heq.1 ▸ hall _ (List.mem_of_find?_eq_some hfind)

/-- A number is a float, or an integer spelled by its digits. -/
theorem readNumber?_cases {negative : Bool} {token : Token}
    (h : readNumber? negative s = some (token, rest)) : (∃ x, token = .leaf (.float x)) ∨
      ∃ ds, ds ≠ [] ∧ (∀ d ∈ ds, d < 10) ∧ token = integerToken negative ds := by
  cases hw : readInteger? s with
  | none => simp [readNumber?, hw] at h
  | some wr =>
    simp only [readNumber?, hw, Option.bind_eq_bind, Option.bind_some] at h
    split at h <;> simp only [Option.pure_def, Option.some.injEq, Prod.mk.injEq] at h
    · exact .inl ⟨_, h.1.symm⟩
    · exact .inl ⟨_, h.1.symm⟩
    · obtain ⟨hne, hlt⟩ := readInteger?_digits hw
      exact .inr ⟨wr.1, hne, hlt, h.1.symm⟩

theorem isLeaf_of_integerToken {negative : Bool} {ds : List Nat} {v : Value} (hds : ds ≠ [])
    (hlt : ∀ d ∈ ds, d < 10) (h : integerToken negative ds = .leaf v) : v.isLeaf = true := by
  unfold integerToken at h
  split at h
  case isTrue hlength =>
    have habs : (Binary64.signed negative (natOfDigits ds)).natAbs = natOfDigits ds := by
      cases negative <;> simp [Binary64.signed]
    have hle := Text.length_digits_natOfDigits_le hds hlt
    simp only [Token.leaf.injEq] at h
    simp only [← h, Value.isLeaf, habs, decide_eq_true_eq]
    omega
  case isFalse => simp at h

theorem isLeaf_of_readNumber? {negative : Bool} {v : Value}
    (h : readNumber? negative s = some (.leaf v, rest)) : v.isLeaf = true := by
  obtain ⟨x, hx⟩ | ⟨ds, hne, hlt, hds⟩ := readNumber?_cases h
  · simp only [Token.leaf.injEq] at hx
    rw [hx]
    rfl
  · exact isLeaf_of_integerToken hne hlt hds.symm

theorem mark?_ne_leaf (c : CodePoint) (v : Value) : mark? c ≠ some (.leaf v) := by
  fun_cases mark? c <;> simp

theorem isLeaf_of_readToken? {v : Value}
    (h : readToken? s = some (.leaf v, rest)) : v.isLeaf = true := by
  revert h
  fun_cases readToken? s <;> intro h
  case case1 => simp at h
  case case2 hmark =>
    simp only [Option.some.injEq, Prod.mk.injEq] at h
    exact absurd (h.1 ▸ hmark) (mark?_ne_leaf _ _)
  case case3 => simp at h
  case case4 hw =>
    simp only [Option.some.injEq, Prod.mk.injEq, Token.leaf.injEq] at h
    exact h.1 ▸ isLeaf_of_readWord? hw
  case case5 => exact isLeaf_of_readNumber? h
  case case6 => exact isLeaf_of_readNumber? h

theorem isLeaf_of_mem_tokens {t : Text} {v : Value} (h : .leaf v ∈ tokens t) : v.isLeaf = true :=
  let ⟨_, _, _, hread⟩ := exists_readToken?_of_mem_tokens h (by simp)
  isLeaf_of_readToken? hread

end Json

end PottsOracle
