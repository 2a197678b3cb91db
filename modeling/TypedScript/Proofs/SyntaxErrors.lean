/-
Where a syntax error points. A text that has tokens but is not read is reported at its first wrong token: the tokens in
front of it start the tokens of a text that is read, and no text that is read has tokens that start like these and go on
with that one. The end of the text counts as a token. Of the tokens of a text one at most is the first wrong one.

That there is such a text is shown by writing one: the text is cut off in front of the token, and the lexemes that
complete what stands before the cut are written behind it (`Grammar.Completable`, `tokenize_resume`). That no text goes
on with the token is shown by reading: it would be read the same way and stop there too (`Parse.follows_module`).

- `FirstWrong`: the first wrong token of a text, which is the only one (`FirstWrong.unique`).
- `syntax_error_at_first_wrong`: every syntax error of a text that has tokens points at the first wrong one.
-/
import TypedScript.Proofs.Token.Resume
import TypedScript.Proofs.Tree.Grammar.Complete
import TypedScript.Proofs.Tree.Grammar.Stops

namespace TypedScript

open Grammar

/-- the tokens of a text that is read -/
def Readable (tokens : List Token) : Prop := ∃ source ast, tokenize source = .ok tokens ∧ parse source = .ok ast

/-- the token behind some others is the first wrong one: these start the tokens of a text that is read, places
included, and with the token behind them they do not, wherever the tokens stand in it -/
structure FirstWrong (before : List Token) (t : Token) : Prop where
  starts : ∃ others, Readable others ∧ before <+: others
  wrong : ∀ others, Readable others → ¬ (before ++ [t]).map Token.key <+: others.map Token.key

variable {source : String} {tokens before before' used left after after' : List Token} {t t' last : Token} {c : Cursor}
  {e : SyntaxError}

theorem FirstWrong.length_le (h : FirstWrong before t) (h' : FirstWrong before' t')
    (heq : before ++ t :: after = before' ++ t' :: after') : before'.length ≤ before.length := by
  by_contra hlong
  obtain ⟨others, hread, hstarts⟩ := h'.starts
  have hpre : before ++ [t] <+: before' ++ t' :: after' := ⟨after, by rw [← heq, List.append_assoc]; rfl⟩
  have hbefore : before ++ [t] <+: before' :=
    List.prefix_of_prefix_length_le hpre (List.prefix_append _ _) (by simp; omega)
  exact h.wrong others hread ((hbefore.trans hstarts).map Token.key)

/-- the tokens of a text have one first wrong token at most -/
theorem FirstWrong.unique (h : FirstWrong before t) (h' : FirstWrong before' t')
    (heq : before ++ t :: after = before' ++ t' :: after') : before = before' ∧ t = t' := by
  obtain ⟨rfl, hrest⟩ := List.append_inj heq (Nat.le_antisymm (h'.length_le h heq.symm) (h.length_le h' heq))
  exact ⟨rfl, (List.cons.inj hrest).1⟩

/-! ## Tokens that can be gone on with -/

/-- what can be completed to a module starts the tokens of a text that is read -/
theorem exists_readable (h : tokenize source = .ok (used ++ t :: after)) (hused : Completable (phrase IsStmts) used) :
    ∃ tokens, Readable tokens ∧ used <+: tokens := by
  obtain ⟨lexemes, hformed, hcomplete⟩ := hused
  obtain ⟨source', more, last, htokens, -, hnames⟩ := tokenize_resume h hformed
  obtain ⟨body, hbody⟩ := hcomplete more hnames
  have hmodule : IsModule (used ++ more ++ [last]).dropLast ⟨body, .null⟩ := by
    rw [List.dropLast_concat]
    exact ⟨body, rfl, hbody⟩
  obtain ⟨ast, hast, -⟩ := parseTokens_of_isModule htokens hmodule
  refine ⟨used ++ more ++ [last], ⟨source', ast, htokens, ?_⟩, more ++ [last], by simp⟩
  rw [parse_of_tokenize htokens, hast]

/-! ## Tokens that cannot -/

/-- the first of tokens that an end stands behind, if the end is not the first -/
theorem head?_of_end {ts : List Token} (h : ts ++ [last] = t :: after) (hlast : last.kind = .endOfText)
    (hts : ∀ t ∈ ts, t.Proper) : ts.head? = if t.kind = .endOfText then none else some t := by
  cases ts with
  | nil =>
    obtain ⟨rfl, -⟩ := List.cons.inj h
    rw [if_pos hlast]
    rfl
  | cons u ts =>
    obtain ⟨rfl, -⟩ := List.cons.inj h
    rw [if_neg (hts u List.mem_cons_self).inside]
    rfl

/-- tokens that start like others up to the first of those left, the end included, are mirrored from their start -/
theorem mirrors_of_prefix {body : List Token} {last' : Token} (h : c.At body) (hlast' : last'.kind = .endOfText)
    (ht : left ++ [last] = t :: after) (hlast : last.kind = .endOfText) (hleft : ∀ t ∈ left, t.Proper)
    (hpre : (used ++ [t]).map Token.key <+: (body ++ [last']).map Token.key) :
    ∃ z used' left', Parse.Mirrors z used left c used' left' := by
  obtain ⟨rest, hrest⟩ := hpre
  obtain ⟨us, vs, hothers, hus, -⟩ := List.map_eq_append_iff.1 hrest.symm
  rw [List.map_append] at hus
  obtain ⟨used', ts, rfl, hused, hts⟩ := List.map_eq_append_iff.1 hus
  obtain ⟨t', ws, rfl, hkey, hws⟩ := List.map_eq_cons_iff.1 hts
  obtain rfl := List.map_eq_nil_iff.1 hws
  obtain ⟨left', end', hend⟩ : ∃ left' end', t' :: vs = left' ++ [end'] :=
    ⟨_, _, (List.dropLast_append_getLast (List.cons_ne_nil t' vs)).symm⟩
  have hall : body ++ [last'] = used' ++ left' ++ [end'] := by simp [hothers, hend]
  obtain ⟨rfl, hends⟩ := List.append_inj' hall rfl
  obtain rfl := List.singleton_inj.1 hends
  have hproper : ∀ t ∈ left', t.Proper := fun t ht => h.proper t (List.mem_append_right _ ht)
  refine ⟨(used' ++ left').length - (used ++ left).length, used', left', h, by omega, hused, ?_⟩
  rw [head?_of_end hend.symm hlast' hproper, head?_of_end ht hlast hleft, (Prod.mk.inj hkey).1]
  split
  · rfl
  · exact congrArg some hkey

/-- Every syntax error of a text that has tokens points at the first wrong one: it stands where a token starts, the
tokens before that one start the tokens of a text that is read, and those up to it, the end of the text counted as a
token, start the tokens of none. -/
theorem syntax_error_at_first_wrong (htokens : tokenize source = .ok tokens) (h : parse source = .error e) :
    ∃ before t after, tokens = before ++ t :: after ∧ e.position = t.span.start ∧ FirstWrong before t := by
  obtain ⟨body, last, rfl, hlast, hbody⟩ := tokenize_proper htokens
  have hat := Cursor.at_ofTokens hlast hbody
  obtain ⟨d, hmodule⟩ := parseTokens_eq_error_iff.1 (parse_of_tokenize htokens ▸ h)
  obtain ⟨used, left, rfl, hd, hend, hposition, hused⟩ := (Parse.follows_module (z := 0) hat).stops hmodule
  have hlast_eq : d.last = last := by
    have htokens_eq := hat.tokens_eq.symm.trans (Cursor.ofTokens_tokens hlast)
    exact hend.trans (List.singleton_inj.1 (List.append_cancel_left htokens_eq))
  have hleft : left ++ [last] = d.current :: d.ahead := by rw [hd.tokens_eq, hlast_eq]
  have hsplit : used ++ left ++ [last] = used ++ d.current :: d.ahead := by rw [List.append_assoc, hleft]
  refine ⟨used, d.current, d.ahead, hsplit, hposition, ⟨exists_readable (hsplit ▸ htokens) hused, ?_⟩⟩
  rintro others ⟨source', ast, htokens', hparse'⟩ hpre
  obtain ⟨body', last', rfl, hlast', hbody'⟩ := tokenize_proper htokens'
  have hat' := Cursor.at_ofTokens hlast' hbody'
  obtain ⟨z, used', left', hmirrors⟩ := mirrors_of_prefix hat' hlast' hleft hlast hd.proper hpre
  obtain ⟨e', d', herror⟩ := (Parse.follows_module hat).stops_mirrored hmodule rfl hd hmirrors
  rw [parse_of_tokenize htokens', parseTokens_eq_error_iff.2 ⟨d', herror⟩] at hparse'
  cases hparse'

/-- a text that ends in a list of arguments, and is wrong where it ends -/
theorem syntax_error_at_first_wrong_unclosed : ∃ tokens e, tokenize "let x := f(1, [2, 3]" = .ok tokens ∧
    parse "let x := f(1, [2, 3]" = .error e ∧ e.position = ⟨1, 21⟩ ∧
    ∃ before t after, tokens = before ++ t :: after ∧ e.position = t.span.start ∧ FirstWrong before t := by
  have hscan : (tokenize "let x := f(1, [2, 3]").toOption.isSome = true := by decide +kernel
  have hread : (match parse "let x := f(1, [2, 3]" with
      | .ok _ => none
      | .error e => some e.position) = some ⟨1, 21⟩ := by decide +kernel
  cases htokens : tokenize "let x := f(1, [2, 3]" with
  | error e => rw [htokens] at hscan; cases hscan
  | ok tokens =>
    cases hparse : parse "let x := f(1, [2, 3]" with
    | ok ast => rw [hparse] at hread; cases hread
    | error e =>
      rw [hparse] at hread
      exact ⟨tokens, e, rfl, rfl, Option.some.inj hread, syntax_error_at_first_wrong htokens hparse⟩

end TypedScript
