/-
The tokens of a text, as a grammar sees them. A token before the end is proper: a number is a run of decimal digits, and
a mark has the one spelling of its kind. A cursor that stands at tokens has exactly these before it up to the end of the
text (`Cursor.At`); passing a token leaves the others. `Parse.Runs` says of a reading that it succeeds, where
`Parse.Ensures` only says what it gives if it does.

- `tokenize_proper`: the tokens of a text are proper and an end behind them.
- `Parse.ensures_expect`, `Parse.runs_expect`: passing a token of a kind.
-/
import Mathlib.Data.List.Induction
import TypedScript.Proofs.Tree.Grammar
import TypedScript.Proofs.Tree.Reading

namespace TypedScript

/-! ## Tokens -/

/-- a token before the end of the text -/
structure Token.Proper (t : Token) : Prop where
  inside : t.kind ≠ .endOfText
  number : t.kind = .number → t.value.toList ≠ [] ∧ t.value.toList.all Char.isDigit = true
  mark : ∀ m ∈ marks, m.2 = t.kind → t.value = String.ofList m.1

theorem TokenKind.ofWord_mem (word : String) : TokenKind.ofWord word ∈ .identifier :: reservedWords.map Prod.snd := by
  unfold TokenKind.ofWord
  cases h : reservedWords.lookup word with
  | none => exact List.mem_cons_self
  | some kind =>
    obtain ⟨before, after, hw, _⟩ := List.lookup_eq_some_iff.1 h
    refine List.mem_cons_of_mem _ (List.mem_map.2 ⟨(word, kind), ?_, rfl⟩)
    simp [hw]

/-- a token of a kind of words -/
theorem Token.proper_of_word {t : Token} (h : t.kind ∈ TokenKind.identifier :: reservedWords.map Prod.snd) :
    t.Proper := by
  have kinds : ∀ k ∈ TokenKind.identifier :: reservedWords.map Prod.snd,
      k ≠ .endOfText ∧ k ≠ .number ∧ ∀ m ∈ marks, m.2 ≠ k := by decide
  obtain ⟨hinside, hnumber, hmark⟩ := kinds t.kind h
  exact ⟨hinside, fun hn => absurd hn hnumber, fun m hm heq => absurd heq (hmark m hm)⟩

theorem Token.proper_of_mark {m : List Char × TokenKind} (hm : m ∈ marks) (span : Span) :
    (⟨m.2, String.ofList m.1, span⟩ : Token).Proper := by
  have kinds : ∀ m ∈ marks, m.2 ≠ .endOfText ∧ m.2 ≠ .number ∧ ∀ m' ∈ marks, m'.2 = m.2 → m'.1 = m.1 := by decide
  obtain ⟨hinside, hnumber, hmark⟩ := kinds m hm
  exact ⟨hinside, fun hn => absurd hn hnumber, fun m' hm' heq => by rw [hmark m' hm' heq]⟩

theorem Piece.first_proper {c : Char} {text : List Char} {piece : Piece} {p : Position} {t : Token}
    (h : Piece.first c text = .ok piece) (ht : piece.token? p = some t) : t.Proper := by
  have string : ∀ m ∈ marks, m.2 ≠ .string ∧ m.2 ≠ .number := by decide
  unfold Piece.first at h
  split at h
  · cases h; cases ht
    exact Token.proper_of_word (TokenKind.ofWord_mem _)
  split at h
  · next hdigit =>
    cases h; cases ht
    refine ⟨by simp, fun _ => ?_, fun m hm heq => absurd heq (string m hm).2⟩
    simpa [Piece.run] using hdigit
  split at h
  · cases h; cases ht
  split at h
  · split at h
    · cases h; cases ht
      exact ⟨by simp, by simp, fun m hm heq => absurd heq (string m hm).1⟩
    · cases h
  split at h
  · cases h; cases ht
  split at h
  · next mark kind hm =>
    cases h; cases ht
    exact Token.proper_of_mark (List.mem_of_find?_eq_some hm) _
  · cases h

theorem Token.scan_proper (text : List Char) (p : Position) {tokens : List Token} (h : Token.scan text p = .ok tokens) :
    ∃ body last, tokens = body ++ [last] ∧ last.kind = .endOfText ∧ ∀ t ∈ body, t.Proper := by
  obtain ⟨body, q, rfl, hbody⟩ := Token.scan_pieces text p h
  refine ⟨body, _, rfl, rfl, fun t ht => ?_⟩
  obtain ⟨_, _, _, _, hpiece, htoken⟩ := hbody t ht
  exact Piece.first_proper hpiece htoken

theorem tokenize_proper {source : String} {tokens : List Token} (h : tokenize source = .ok tokens) :
    ∃ body last, tokens = body ++ [last] ∧ last.kind = .endOfText ∧ ∀ t ∈ body, t.Proper :=
  Token.scan_proper _ _ h

/-! ## Numbers -/

theorem foldl_digits (digits : List Char) :
    digits.foldl (fun n c => 10 * n + (c.toNat - '0'.toNat)) 0 = Grammar.numeral digits := by
  induction digits using List.reverseRecOn with
  | nil => rfl
  | append_singleton digits c ih =>
    rw [List.foldl_append, List.foldl_cons, List.foldl_nil, ih]
    simp only [Grammar.numeral, List.reverse_append, List.reverse_singleton, List.singleton_append, List.map_cons,
      Nat.ofDigits_cons]
    simp
    omega

/-- digits without a sign are read as the number they stand for, where that fits in 64 bits -/
theorem int64?_digits {text : String} (hne : text.toList ≠ []) (hall : text.toList.all Char.isDigit = true) :
    Parse.int64? text = if Grammar.numeral text.toList < 2 ^ 63 then some (Int64.ofNat (Grammar.numeral text.toList))
      else none := by
  have hdecimal : Parse.int64?.decimal? text.toList = some (Grammar.numeral text.toList) := by
    unfold Parse.int64?.decimal?
    rw [if_pos ⟨hne, hall⟩, foldl_digits]
  have hmin : Int64.minValue.toInt ≤ Int.ofNat (Grammar.numeral text.toList) := by
    have hzero : Int64.minValue.toInt ≤ 0 := by decide
    exact Int.le_trans hzero (Int.natCast_nonneg _)
  have hmax : Int64.maxValue.toInt = 2 ^ 63 - 1 := by decide
  obtain ⟨first, rest, hcons⟩ := List.exists_cons_of_ne_nil hne
  have hfirst : first.isDigit = true := by
    rw [hcons, List.all_cons, Bool.and_eq_true] at hall
    exact hall.1
  unfold Parse.int64?
  rw [hcons] at hdecimal ⊢
  split
  · next heq => simp_all
  · next heq => simp_all
  · simp only [hdecimal, Option.map_some, Option.bind_some]
    rw [← hcons]
    by_cases hfits : Grammar.numeral text.toList < 2 ^ 63
    · rw [if_pos hfits, if_pos ⟨hmin, by rw [hmax]; simp; omega⟩]
      rfl
    · rw [if_neg hfits, if_neg]
      rw [hmax]
      simp
      omega

/-! ## Cursors -/

namespace Cursor

/-- the tokens before the cursor up to the end of the text -/
structure At (c : Cursor) (ts : List Token) : Prop where
  proper : ∀ t ∈ ts, t.Proper
  tokens : ∃ last, last.kind = .endOfText ∧ c.current :: c.ahead = ts ++ [last]

variable {c : Cursor} {t : Token} {ts : List Token}

theorem At.kind (h : c.At ts) : c.current.kind = headKind ts := by
  obtain ⟨last, hlast, htokens⟩ := h.tokens
  cases ts with
  | nil =>
    rw [(List.cons.inj htokens).1]
    exact hlast
  | cons t ts => rw [(List.cons.inj htokens).1, headKind_cons]

theorem At.remaining (h : c.At ts) : c.remaining = ts.length + 1 := by
  obtain ⟨last, _, htokens⟩ := h.tokens
  have hlength := congrArg List.length htokens
  simpa [Cursor.remaining] using hlength

theorem At.depth (h : c.At ts) : c.depth = 8 * (ts.length + 1) := by
  rw [Cursor.depth, h.remaining]

theorem At.current (h : c.At (t :: ts)) : c.current = t := by
  obtain ⟨last, _, htokens⟩ := h.tokens
  exact (List.cons.inj htokens).1

theorem At.starts {kinds : List TokenKind} {us : List Token} (h : c.At (ts ++ us)) (hts : Grammar.StartsWith kinds ts) :
    c.current.kind ∈ kinds := by
  obtain ⟨t, vs, rfl, ht⟩ := hts
  rw [h.current]
  exact ht

theorem At.next (h : c.At (t :: ts)) : c.next.At ts := by
  obtain ⟨last, hlast, htokens⟩ := h.tokens
  refine ⟨fun u hu => h.proper u (List.mem_cons_of_mem t hu), last, hlast, ?_⟩
  have hahead : c.ahead = ts ++ [last] := (List.cons.inj htokens).2
  unfold Cursor.next
  split
  · next hnil => simp [hnil] at hahead
  · next token rest hcons => rw [← hahead, hcons]

/-- a cursor that is not at the end of the text has a token before it -/
theorem At.cons (h : c.At ts) (hkind : c.current.kind ≠ .endOfText) : ∃ us, ts = c.current :: us ∧ c.next.At us := by
  cases ts with
  | nil => exact absurd h.kind hkind
  | cons t us => exact ⟨us, by rw [h.current], h.next⟩

/-- nothing is added behind tokens that end in an end -/
theorem ofTokens_tokens {body : List Token} {last : Token} (hlast : last.kind = .endOfText) :
    (Cursor.ofTokens (body ++ [last])).current :: (Cursor.ofTokens (body ++ [last])).ahead = body ++ [last] := by
  unfold Cursor.ofTokens
  simp only [List.getLast?_append, List.getLast?_singleton, Option.some_or, hlast, if_true, List.append_nil]
  cases body <;> rfl

theorem at_ofTokens {body : List Token} {last : Token} (hlast : last.kind = .endOfText) (hbody : ∀ t ∈ body, t.Proper) :
    (Cursor.ofTokens (body ++ [last])).At body :=
  ⟨hbody, last, hlast, ofTokens_tokens hlast⟩

end Cursor

/-! ## Reading -/

namespace Parse

variable {α β : Type} {c : Cursor} {t : Token} {ts : List Token}

/-- reading from `c` succeeds, and its result and where it ends are as `Q` says -/
def Runs (x : Parse α) (c : Cursor) (Q : α → Cursor → Prop) : Prop := ∃ a d, x c = .ok a d ∧ Q a d

theorem Runs.bind {x : Parse α} {f : α → Parse β} {P : α → Cursor → Prop} {Q : β → Cursor → Prop} (hx : Runs x c P)
    (hf : ∀ a d, P a d → Runs (f a) d Q) : Runs (x >>= f) c Q := by
  obtain ⟨a, d, hxc, hP⟩ := hx
  obtain ⟨b, e, hfd, hQ⟩ := hf a d hP
  refine ⟨b, e, ?_, hQ⟩
  change EStateM.bind x f c = .ok b e
  simp [EStateM.bind, hxc, hfd]

theorem Runs.pure {a : α} {Q : α → Cursor → Prop} (h : Q a c) : Runs (pure a : Parse α) c Q := ⟨a, c, rfl, h⟩

theorem runs_get : Runs (get : Parse Cursor) c fun a d => c = a ∧ c = d := ⟨c, c, rfl, rfl, rfl⟩

theorem runs_kind : Runs kind c fun k d => c.current.kind = k ∧ c = d := ⟨_, c, rfl, rfl, rfl⟩

theorem runs_spanFrom {start : Position} : Runs (spanFrom start) c fun _ d => c = d := ⟨_, c, rfl, rfl⟩

theorem runs_freshId (h : c.At ts) : Runs freshId c fun _ d => d.At ts := ⟨c.nextId, _, rfl, h.proper, h.tokens⟩

theorem runs_advance (h : c.At (t :: ts)) : Runs advance c fun a d => a = t ∧ d.At ts :=
  ⟨c.current, c.next, rfl, h.current, h.next⟩

theorem runs_expect {kind : TokenKind} (h : c.At (t :: ts)) (ht : t.kind = kind) :
    Runs (expect kind) c fun a d => a = t ∧ d.At ts := by
  refine runs_get.bind fun a d hd => ?_
  obtain ⟨rfl, rfl⟩ := hd
  rw [if_pos (by rw [h.current, ht])]
  exact runs_advance h

theorem runs_expectDetailed {kind : TokenKind} {message : String} (h : c.At (t :: ts)) (ht : t.kind = kind) :
    Runs (expectDetailed kind message) c fun a d => a = t ∧ d.At ts := by
  refine runs_get.bind fun a d hd => ?_
  obtain ⟨rfl, rfl⟩ := hd
  rw [if_pos (by rw [h.current, ht])]
  exact runs_advance h

theorem ensures_advance (h : c.At ts) (hkind : c.current.kind ≠ .endOfText) :
    Ensures advance c fun a d => a = c.current ∧ ∃ us, ts = a :: us ∧ d.At us := by
  intro a d had
  cases had
  exact ⟨rfl, h.cons hkind⟩

theorem ensures_freshId (h : c.At ts) : Ensures freshId c fun _ d => d.At ts := by
  intro a d had
  cases had
  exact ⟨h.proper, h.tokens⟩

/-- a token of a kind is passed -/
theorem ensures_expect {kind : TokenKind} (h : c.At ts) (hkind : kind ≠ .endOfText) :
    Ensures (expect kind) c fun a d => a.kind = kind ∧ ∃ us, ts = a :: us ∧ d.At us := by
  refine ensures_get.bind fun a d hd => ?_
  obtain ⟨rfl, rfl⟩ := hd
  split
  · next heq =>
    intro a d had
    obtain ⟨rfl, us, hus, hd⟩ := ensures_advance h (by rw [heq]; exact hkind) a d had
    exact ⟨heq, us, hus, hd⟩
  · exact ensures_unexpected

theorem ensures_expectDetailed {kind : TokenKind} {message : String} (h : c.At ts) (hkind : kind ≠ .endOfText) :
    Ensures (expectDetailed kind message) c fun a d => a.kind = kind ∧ ∃ us, ts = a :: us ∧ d.At us := by
  refine ensures_get.bind fun a d hd => ?_
  obtain ⟨rfl, rfl⟩ := hd
  split
  · next heq =>
    intro a d had
    obtain ⟨rfl, us, hus, hd⟩ := ensures_advance h (by rw [heq]; exact hkind) a d had
    exact ⟨heq, us, hus, hd⟩
  · exact ensures_unexpectedDetailed

/-! ## Items between commas -/

/-- one step of reading items up to a token that closes them -/
def listStep (close : TokenKind) (item : Parse α) (rest : Parse (List α)) : Parse (List α) := do
  if (← kind) = close then return []
  else
    let a ← item
    separator close
    let items ← rest
    return a :: items

/-- a parameter of a function literal -/
def param : Parse Parameter := do
  let name ← expectDetailed .identifier "expected parameter name"
  let _ ← expect .colon
  let type ← note .default
  let span ← spanFrom name.span.start
  return ⟨name.value, type, span⟩

theorem params_succ (fuel : Nat) : params (fuel + 1) = listStep .closeParen param (params fuel) := by
  simp [params, listStep, param]

theorem useNames_succ (fuel : Nat) :
    useNames (fuel + 1) = listStep .closeParen (do return (← expect .identifier).value) (useNames fuel) := by
  simp [useNames, listStep]

theorem exprItems_succ (fuel : Nat) (close : TokenKind) :
    exprItems (fuel + 1) close = listStep close (exprWithin fuel .default) (exprItems fuel close) := rfl

end Parse

end TypedScript
