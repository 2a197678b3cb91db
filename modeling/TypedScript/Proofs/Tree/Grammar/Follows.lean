/-
Two readings that go the same way. A reading that fails stops at a token, and `Follows` says two things of it: the
tokens before that one can be completed to a phrase, and the reading is led there by these tokens alone, so that from
any other tokens that start in the same way, up to and including the one that it stops at, it fails as well. No rule
looks further than the token it stands at.

The two readings of `Follows` may have different numbers of steps, as these are taken from the number of tokens left;
both must be enough. It is enough to have eight for each token, less a few (`Enough`).

- `Parse.Mirrors`: a cursor at tokens that start in the same way as others.
- `Parse.Follows.bind`, `Parse.Follows.seq`: one reading after the other.
- `Parse.Follows.start`: a rule that starts with as many steps as the tokens left need.
-/
import TypedScript.Proofs.Tree.Grammar.Viable

namespace TypedScript

/-- a token apart from its place -/
def Token.key (t : Token) : TokenKind × String := (t.kind, t.value)

open Grammar

namespace Cursor

/-- the token that the tokens of the cursor end in -/
def last (c : Cursor) : Token := (c.current :: c.ahead).getLast (List.cons_ne_nil _ _)

theorem last_next (c : Cursor) : c.next.last = c.last := by
  unfold next
  split
  · rfl
  · next heq => simp [last, heq]

theorem At.tokens_eq {c : Cursor} {ts : List Token} (h : c.At ts) : c.current :: c.ahead = ts ++ [c.last] := by
  obtain ⟨last, _, htokens⟩ := h.tokens
  simp [Cursor.last, htokens]

theorem At.unique {c : Cursor} {ts us : List Token} (h : c.At ts) (h' : c.At us) : ts = us :=
  List.append_cancel_right (h.tokens_eq.symm.trans h'.tokens_eq)

end Cursor

namespace Parse

variable {α β : Type} {z : Int} {L M : Language Token} {c c' d : Cursor} {ts us used left used' left' : List Token}
  {fuel fuel' short : Nat}

/-! ## Readings that go the same way -/

/-- a cursor at tokens that are the others apart from their places, up to and including the first of those left; there
may be `z` tokens more -/
structure Mirrors (z : Int) (used left : List Token) (c' : Cursor) (used' left' : List Token) : Prop where
  stands : c'.At (used' ++ left')
  length : ((used' ++ left').length : Int) ≤ (used ++ left).length + z
  used : used'.map Token.key = used.map Token.key
  next : left'.head?.map Token.key = left.head?.map Token.key

theorem head?_append_key (hused : used'.map Token.key = used.map Token.key)
    (hnext : left'.head?.map Token.key = left.head?.map Token.key) :
    (used' ++ left').head?.map Token.key = (used ++ left).head?.map Token.key := by
  have hheads : (left'.map Token.key).head? = (left.map Token.key).head? := by
    rw [List.head?_map, List.head?_map, hnext]
  rw [← List.head?_map, ← List.head?_map, List.map_append, List.map_append, hused, List.head?_append, List.head?_append,
    hheads]

/-- the two cursors stand at the same token -/
theorem Mirrors.current (hm : Mirrors z used left c' used' left') (h : c.At (used ++ left)) :
    c'.current.kind = c.current.kind ∧ (c.current.kind ≠ .endOfText → c'.current.value = c.current.value) := by
  have hhead := head?_append_key hm.used hm.next
  have h' := hm.stands
  generalize used ++ left = ts at *
  generalize used' ++ left' = ts' at *
  cases ts with
  | nil =>
    cases ts' with
    | nil => exact ⟨by rw [h.kind, h'.kind], fun hinside => absurd h.kind hinside⟩
    | cons t' ts' => cases hhead
  | cons t ts =>
    cases ts' with
    | nil => cases hhead
    | cons t' ts' =>
      obtain ⟨hkind, hvalue⟩ := Prod.mk.inj (Option.some.inj hhead)
      rw [h.current, h'.current]
      exact ⟨hkind, fun _ => hvalue⟩

/-- tokens that are used in two goes -/
theorem Mirrors.split {more rest' : List Token} {all' : List Token} (hm : Mirrors z (used ++ more) left c' all' rest') :
    ∃ used' more', all' = used' ++ more' ∧ Mirrors z used (more ++ left) c' used' (more' ++ rest') ∧
      ∀ {d' : Cursor}, d'.At (more' ++ rest') → Mirrors z more left d' more' rest' := by
  have hkeys := hm.used
  rw [List.map_append] at hkeys
  obtain ⟨used', more', rfl, hused, hmore⟩ := List.map_eq_append_iff.1 hkeys
  have hlength := hm.length
  have hcount : used'.length = used.length := by simpa using congrArg List.length hused
  simp only [List.length_append, Nat.cast_add] at hlength
  refine ⟨used', more', rfl, ⟨by simpa using hm.stands, ?_, hused, head?_append_key hmore hm.next⟩,
    fun hd => ⟨hd, ?_, hmore, hm.next⟩⟩
  all_goals
    simp only [List.length_append, Nat.cast_add]
    omega

/-- a reading `x` that stops at a token up to which the tokens can be completed to a phrase of `L`, and a reading `y`
that goes the same way from any cursor that mirrors its own -/
structure Follows (z : Int) (L : Language Token) (x y : Parse α) (c : Cursor) (ts : List Token) : Prop where
  passes : ∀ {a : α} {d : Cursor}, x c = .ok a d →
    ∃ used left, ts = used ++ left ∧ d.At left ∧ d.last = c.last
  stops : ∀ {e : SyntaxError} {d : Cursor}, x c = .error e d →
    ∃ used left, ts = used ++ left ∧ d.At left ∧ d.last = c.last ∧ e.position = d.position ∧ Completable L used
  passes_mirrored : ∀ {a : α} {d c' : Cursor} {used left used' left' : List Token}, x c = .ok a d → ts = used ++ left →
    d.At left → Mirrors z used left c' used' left' → ∃ a' d', y c' = .ok a' d' ∧ d'.At left'
  stops_mirrored : ∀ {e : SyntaxError} {d c' : Cursor} {used left used' left' : List Token}, x c = .error e d →
    ts = used ++ left → d.At left → Mirrors z used left c' used' left' → ∃ e' d', y c' = .error e' d'

theorem bind_of_ok {x : Parse α} {f : α → Parse β} {a : α} (h : x c = .ok a d) : (x >>= f) c = f a d := by
  change EStateM.bind x f c = f a d
  simp [EStateM.bind, h]

theorem bind_of_error {x : Parse α} {f : α → Parse β} {e : SyntaxError} (h : x c = .error e d) :
    (x >>= f) c = .error e d := by
  change EStateM.bind x f c = .error e d
  simp [EStateM.bind, h]

theorem Follows.mono {x y : Parse α} (h : Follows z L x y c ts) (hle : L ≤ M) : Follows z M x y c ts where
  passes := h.passes
  stops hx :=
    let ⟨used, left, hts, hd, hlast, hposition, hused⟩ := h.stops hx
    ⟨used, left, hts, hd, hlast, hposition, hused.mono hle⟩
  passes_mirrored := h.passes_mirrored
  stops_mirrored := h.stops_mirrored

/-- the other reading passes what the first one does, and comes to a cursor that mirrors the first one's -/
theorem Follows.passes_mirroring {x y : Parse α} {a : α} {more : List Token} (h : Follows z L x y c ts)
    (hx : x c = .ok a d) (hts : ts = used ++ (more ++ left)) (hd : d.At (more ++ left))
    (hm : Mirrors z (used ++ more) left c' used' left') :
    ∃ a' d' more', y c' = .ok a' d' ∧ Mirrors z more left d' more' left' := by
  obtain ⟨front', more', rfl, hfirst, hsecond⟩ := hm.split
  obtain ⟨a', d', hy, hd'⟩ := h.passes_mirrored hx hts hd hfirst
  exact ⟨a', d', more', hy, hsecond hd'⟩

/-- One reading after the other. The tokens that the first one takes are as `Q` says, and to complete what it reads is
to complete the whole. -/
theorem Follows.bind {N : Language Token} {x y : Parse α} {f g : α → Parse β} {Q : α → List Token → List Token → Prop}
    (hx : Follows z L x y c ts) (htakes : Ensures x c (Takes ts Q))
    (hcompletable : ∀ {used}, Completable L used → Completable N used)
    (hf : ∀ a b d used left, ts = used ++ left → Q a used left → d.At left →
      Follows z (N.leftQuotient used) (f a) (g b) d left) : Follows z N (x >>= f) (y >>= g) c ts where
  passes {a e} h := by
    cases hxc : x c with
    | error flaw d => rw [bind_of_error hxc] at h; cases h
    | ok b d =>
      rw [bind_of_ok hxc] at h
      obtain ⟨_, _, _, _, hlast⟩ := hx.passes hxc
      obtain ⟨used, left, rfl, hd, hused⟩ := htakes b d hxc
      obtain ⟨more, rest, rfl, he, hlast'⟩ := (hf b b d used left rfl hused hd).passes h
      exact ⟨used ++ more, rest, (List.append_assoc ..).symm, he, hlast'.trans hlast⟩
  stops {flaw e} h := by
    cases hxc : x c with
    | error flaw' d =>
      rw [bind_of_error hxc] at h
      cases h
      obtain ⟨used, left, hts, hd, hlast, hposition, hused⟩ := hx.stops hxc
      exact ⟨used, left, hts, hd, hlast, hposition, hcompletable hused⟩
    | ok b d =>
      rw [bind_of_ok hxc] at h
      obtain ⟨_, _, _, _, hlast⟩ := hx.passes hxc
      obtain ⟨used, left, rfl, hd, hused⟩ := htakes b d hxc
      obtain ⟨more, rest, rfl, he, hlast', hposition, hmore⟩ := (hf b b d used left rfl hused hd).stops h
      exact ⟨used ++ more, rest, (List.append_assoc ..).symm, he, hlast'.trans hlast, hposition, hmore.append⟩
  passes_mirrored {a e c' all rest all' rest'} h hts he hm := by
    cases hxc : x c with
    | error flaw d => rw [bind_of_error hxc] at h; cases h
    | ok b d =>
      rw [bind_of_ok hxc] at h
      obtain ⟨used, left, hsplit, hd, hused⟩ := htakes b d hxc
      obtain ⟨more, rest, rfl, he', _⟩ := (hf b b d used left hsplit hused hd).passes h
      obtain rfl := he.unique he'
      obtain rfl : all = used ++ more := List.append_cancel_right (hts.symm.trans (by simpa using hsplit))
      obtain ⟨b', d', more', hyc, hmore⟩ := hx.passes_mirroring hxc hsplit hd hm
      rw [bind_of_ok hyc]
      exact (hf b b' d used _ hsplit hused hd).passes_mirrored h rfl he hmore
  stops_mirrored {flaw e c' all rest all' rest'} h hts he hm := by
    cases hxc : x c with
    | error flaw' d =>
      rw [bind_of_error hxc] at h
      cases h
      obtain ⟨flaw', d', hyc⟩ := hx.stops_mirrored hxc hts he hm
      exact ⟨flaw', d', bind_of_error hyc⟩
    | ok b d =>
      rw [bind_of_ok hxc] at h
      obtain ⟨used, left, hsplit, hd, hused⟩ := htakes b d hxc
      obtain ⟨more, rest, rfl, he', _⟩ := (hf b b d used left hsplit hused hd).stops h
      obtain rfl := he.unique he'
      obtain rfl : all = used ++ more := List.append_cancel_right (hts.symm.trans (by simpa using hsplit))
      obtain ⟨b', d', more', hyc, hmore⟩ := hx.passes_mirroring hxc hsplit hd hm
      rw [bind_of_ok hyc]
      exact (hf b b' d used _ hsplit hused hd).stops_mirrored h rfl he hmore

/-- the first part of a rule and the others behind it -/
theorem Follows.seq {parts : List (Language Token)} {x y : Parse α} {f g : α → Parse β}
    {Q : α → List Token → List Token → Prop} (hx : Follows z L x y c ts) (htakes : Ensures x c (Takes ts Q))
    (hmem : ∀ {a used left}, Q a used left → used ∈ L) (hparts : ∀ M ∈ parts, Completable M [])
    (hf : ∀ a b d used left, ts = used ++ left → Q a used left → d.At left →
      Follows z parts.prod (f a) (g b) d left) : Follows z (L :: parts).prod (x >>= f) (y >>= g) c ts := by
  refine hx.bind htakes (fun hused => hused.prod hparts) fun a b d used left hts hused hd => ?_
  rw [List.prod_cons]
  exact (hf a b d used left hts hused hd).mono (le_leftQuotient (hmem hused))

theorem Follows.takes {x y : Parse α} (h : Follows z L x y c ts) : Ensures x c (Takes ts fun _ _ _ => True) := by
  intro a d hx
  obtain ⟨used, left, hts, hd, _⟩ := h.passes hx
  exact ⟨used, left, hts, hd, trivial⟩

/-- what is read is passed on -/
theorem Follows.before {x y : Parse α} {f g : α → Parse β} (hx : Follows z L x y c ts)
    (hf : ∀ a b d used left, ts = used ++ left → d.At left → Follows z (L.leftQuotient used) (f a) (g b) d left) :
    Follows z L (x >>= f) (y >>= g) c ts :=
  hx.bind hx.takes id fun a b d used left hts _ hd => hf a b d used left hts hd

/-- a reading that does not stop -/
theorem Follows.of_passes {x y : Parse α} {a : α} (h : Follows z L x y c ts) (hx : x c = .ok a d) :
    Follows z M x y c ts where
  passes := h.passes
  stops hstop := nomatch hx.symm.trans hstop
  passes_mirrored := h.passes_mirrored
  stops_mirrored := h.stops_mirrored

theorem Follows.last {x y : Parse α} (h : Follows z L x y c ts) : Follows z [L].prod x y c ts := by
  rwa [List.prod_singleton]

/-! ## Steps -/

theorem follows_pure {a b : α} (h : c.At ts) : Follows z L (pure a) (pure b) c ts where
  passes hx := by
    cases hx
    exact ⟨[], ts, rfl, h, rfl⟩
  stops hx := nomatch hx
  passes_mirrored hx hts hd hm := by
    cases hx
    obtain rfl := h.unique hd
    obtain rfl := List.self_eq_append_left.1 hts
    obtain rfl := List.map_eq_nil_iff.1 hm.used
    exact ⟨b, _, rfl, hm.stands⟩
  stops_mirrored hx := nomatch hx

/-- an error at the token that the cursor stands at, where nothing has to stand before it -/
theorem follows_throw {e e' : SyntaxError} (h : c.At ts) (he : e.position = c.position) (hL : Completable L []) :
    Follows z L (throw e : Parse α) (throw e') c ts where
  passes hx := nomatch hx
  stops hx := by
    cases hx
    exact ⟨[], ts, rfl, h, rfl, he, hL⟩
  passes_mirrored hx := nomatch hx
  stops_mirrored _ _ _ _ := ⟨_, _, rfl⟩

theorem follows_get {f g : Cursor → Parse β} (h : c.At ts)
    (hf : ∀ c', c'.current.kind = c.current.kind → (c.current.kind ≠ .endOfText → c'.current.value = c.current.value) →
      Follows z L (f c) (g c') c ts) : Follows z L (get >>= f) (get >>= g) c ts where
  passes hx := (hf c rfl fun _ => rfl).passes hx
  stops hx := (hf c rfl fun _ => rfl).stops hx
  passes_mirrored hx hts hd hm := by
    obtain ⟨hkind, hvalue⟩ := hm.current (hts ▸ h)
    exact (hf _ hkind hvalue).passes_mirrored hx hts hd hm
  stops_mirrored hx hts hd hm := by
    obtain ⟨hkind, hvalue⟩ := hm.current (hts ▸ h)
    exact (hf _ hkind hvalue).stops_mirrored hx hts hd hm

theorem follows_kind {f g : TokenKind → Parse β} (h : c.At ts)
    (hf : ∀ k, c.current.kind = k → Follows z L (f k) (g k) c ts) : Follows z L (kind >>= f) (kind >>= g) c ts := by
  refine follows_get h fun c' hkind _ => ?_
  rw [hkind]
  exact hf _ rfl

theorem follows_unexpected (h : c.At ts) (hL : Completable L []) :
    Follows z L (unexpected : Parse α) unexpected c ts :=
  follows_get h fun _ _ _ => follows_throw h rfl hL

theorem follows_unexpectedDetailed {message : String} (h : c.At ts) (hL : Completable L []) :
    Follows z L (unexpectedDetailed message : Parse α) (unexpectedDetailed message) c ts :=
  follows_get h fun _ _ _ => follows_throw h rfl hL

theorem follows_spanFrom {start start' : Position} {f g : Span → Parse β}
    (hf : ∀ span span', Follows z L (f span) (g span') c ts) :
    Follows z L (spanFrom start >>= f) (spanFrom start' >>= g) c ts where
  passes hx := (hf (c.spanFrom start) .null).passes hx
  stops hx := (hf (c.spanFrom start) .null).stops hx
  passes_mirrored {_ _ c'} _ _ _ _ hx := (hf (c.spanFrom start) (c'.spanFrom start')).passes_mirrored hx
  stops_mirrored {_ _ c'} _ _ _ _ hx := (hf (c.spanFrom start) (c'.spanFrom start')).stops_mirrored hx

theorem follows_freshId (h : c.At ts) : Follows z L freshId freshId c ts where
  passes hx := by
    cases hx
    exact ⟨[], ts, rfl, ⟨h.proper, h.tokens⟩, rfl⟩
  stops hx := nomatch hx
  passes_mirrored hx hts hd hm := by
    cases hx
    have hc : Cursor.At { c with nextId := c.nextId + 1 } ts := ⟨h.proper, h.tokens⟩
    obtain rfl := hc.unique hd
    obtain rfl := List.self_eq_append_left.1 hts
    obtain rfl := List.map_eq_nil_iff.1 hm.used
    exact ⟨_, _, rfl, hm.stands.proper, hm.stands.tokens⟩
  stops_mirrored hx := nomatch hx

theorem takes_freshId (h : c.At ts) : Ensures freshId c (Takes ts fun _ used _ => used = []) := by
  intro id d hx
  exact ⟨[], ts, rfl, ensures_freshId h id d hx, rfl⟩

theorem Follows.freshId {f g : Nat → Parse β} (h : c.At ts)
    (hf : ∀ id id' d, d.At ts → Follows z L (f id) (g id') d ts) :
    Follows z L (Parse.freshId >>= f) (Parse.freshId >>= g) c ts := by
  refine (follows_freshId h).bind (takes_freshId h) id fun id id' d used left hts hused hd => ?_
  subst hused hts
  exact hf id id' d hd

theorem follows_advance (h : c.At ts) (hkind : c.current.kind ≠ .endOfText) :
    Follows z L advance advance c ts where
  passes hx := by
    cases hx
    obtain ⟨us, hts, hnext⟩ := h.cons hkind
    exact ⟨[c.current], us, hts, hnext, c.last_next⟩
  stops hx := nomatch hx
  passes_mirrored hx hts hd hm := by
    cases hx
    obtain ⟨us, rfl, hnext⟩ := h.cons hkind
    obtain rfl := hnext.unique hd
    have hused : [c.current] ++ us = _ ++ us := hts
    obtain rfl := List.append_cancel_right hused
    obtain ⟨t', us', rfl, _, hus⟩ := List.map_eq_cons_iff.1 hm.used
    obtain rfl := List.map_eq_nil_iff.1 hus
    exact ⟨_, _, rfl, hm.stands.next⟩
  stops_mirrored hx := nomatch hx

/-- a token that is passed is what is taken -/
theorem takes_token {P : Token → Prop} {x : Parse Token}
    (h : Ensures x c fun t d => P t ∧ ∃ us, ts = t :: us ∧ d.At us) :
    Ensures x c (Takes ts fun t used _ => P t ∧ used = [t]) := by
  intro t d hx
  obtain ⟨ht, us, hts, hd⟩ := h t d hx
  exact ⟨[t], us, hts, hd, ht, rfl⟩

/-- the token that the cursor stands at is passed -/
theorem Follows.advance {f g : Token → Parse β} (h : c.At ts) (hkind : c.current.kind ≠ .endOfText)
    (hf : ∀ t' d us, ts = c.current :: us → d.At us →
      Follows z (L.leftQuotient [c.current]) (f c.current) (g t') d us) :
    Follows z L (Parse.advance >>= f) (Parse.advance >>= g) c ts := by
  refine (follows_advance h hkind).bind (takes_token (ensures_advance h hkind)) id fun t t' d used left hts ht hd => ?_
  obtain ⟨rfl, rfl⟩ := ht
  exact hf t' d left hts hd

/-- the token of the first part of a rule is passed -/
theorem Follows.first {kind : TokenKind} {parts : List (Language Token)} {f g : Token → Parse β} (h : c.At ts)
    (hkind : c.current.kind = kind) (hinside : kind ≠ .endOfText)
    (hf : ∀ t' d us, ts = c.current :: us → d.At us → Follows z parts.prod (f c.current) (g t') d us) :
    Follows z (ofKind kind :: parts).prod (Parse.advance >>= f) (Parse.advance >>= g) c ts := by
  refine .advance h (hkind ▸ hinside) fun t' d us hts hd => ?_
  rw [List.prod_cons]
  exact (hf t' d us hts hd).mono (le_leftQuotient (mem_ofKind hkind))

/-- a token of a kind is passed, or else the reading fails where there is none -/
theorem follows_ofKind {kind : TokenKind} {fail : Parse Token} (h : c.At ts) (hkind : kind ≠ .endOfText)
    (hfail : Follows z (ofKind kind) fail fail c ts) :
    Follows z (ofKind kind) (do if (← get).current.kind = kind then advance else fail)
      (do if (← get).current.kind = kind then advance else fail) c ts := by
  refine follows_get h fun c' hsame _ => ?_
  rw [hsame]
  split
  · next heq => exact follows_advance h (heq ▸ hkind)
  · exact hfail

theorem follows_expect {kind : TokenKind} (h : c.At ts) (hkind : kind ≠ .endOfText) :
    Follows z (ofKind kind) (expect kind) (expect kind) c ts :=
  follows_ofKind h hkind (follows_unexpected h (completable_ofKind hkind))

theorem follows_expectDetailed {kind : TokenKind} {message : String} (h : c.At ts) (hkind : kind ≠ .endOfText) :
    Follows z (ofKind kind) (expectDetailed kind message) (expectDetailed kind message) c ts :=
  follows_ofKind h hkind (follows_unexpectedDetailed h (completable_ofKind hkind))

/-- a token of the kind that the rule goes on with -/
theorem Follows.token {kind : TokenKind} {parts : List (Language Token)} {x y : Parse Token} {f g : Token → Parse β}
    (hx : Follows z (ofKind kind) x y c ts)
    (htakes : Ensures x c fun t d => t.kind = kind ∧ ∃ us, ts = t :: us ∧ d.At us)
    (hparts : ∀ M ∈ parts, Completable M [])
    (hf : ∀ t t' d us, ts = t :: us → d.At us → Follows z parts.prod (f t) (g t') d us) :
    Follows z (ofKind kind :: parts).prod (x >>= f) (y >>= g) c ts := by
  refine hx.seq (takes_token htakes) ?_ hparts fun t t' d used left hts ht hd => ?_
  · rintro t _ _ ⟨ht, rfl⟩
    exact mem_ofKind ht
  · obtain ⟨-, rfl⟩ := ht
    exact hf t t' d left hts hd

theorem Follows.expect {kind : TokenKind} {parts : List (Language Token)} {f g : Token → Parse β} (h : c.At ts)
    (hkind : kind ≠ .endOfText) (hparts : ∀ M ∈ parts, Completable M [])
    (hf : ∀ t t' d us, ts = t :: us → d.At us → Follows z parts.prod (f t) (g t') d us) :
    Follows z (ofKind kind :: parts).prod (Parse.expect kind >>= f) (Parse.expect kind >>= g) c ts :=
  (follows_expect h hkind).token (ensures_expect h hkind) hparts hf

theorem Follows.expectDetailed {kind : TokenKind} {message : String} {parts : List (Language Token)}
    {f g : Token → Parse β} (h : c.At ts) (hkind : kind ≠ .endOfText) (hparts : ∀ M ∈ parts, Completable M [])
    (hf : ∀ t t' d us, ts = t :: us → d.At us → Follows z parts.prod (f t) (g t') d us) :
    Follows z (ofKind kind :: parts).prod (Parse.expectDetailed kind message >>= f)
      (Parse.expectDetailed kind message >>= g) c ts :=
  (follows_expectDetailed h hkind).token (ensures_expectDetailed h hkind) hparts hf

/-! ## Numbers of steps -/

/-- steps enough for the tokens, in both readings: eight for each token and the end, less a few -/
structure Enough (z : Int) (short : Nat) (ts : List Token) (fuel fuel' : Nat) : Prop where
  own : 8 * (ts.length + 1) ≤ fuel + short
  other : 8 * (ts.length + z + 1) ≤ (fuel' : Int) + short

theorem Enough.same {short' : Nat} (h : Enough z short ts (fuel + 1) (fuel' + 1)) (hshort : short < short') :
    Enough z short' ts fuel fuel' := by
  obtain ⟨hown, hother⟩ := h
  exact ⟨by omega, by push_cast at hother; omega⟩

theorem Enough.longer {short' : Nat} (h : Enough z short ts fuel fuel') (hshort : short ≤ short') :
    Enough z short' ts fuel fuel' := by
  obtain ⟨hown, hother⟩ := h
  exact ⟨by omega, by omega⟩

theorem Enough.shorter (h : Enough z short ts fuel fuel') (hleft : left.length ≤ ts.length) :
    Enough z short left fuel fuel' := by
  obtain ⟨hown, hother⟩ := h
  exact ⟨by omega, by omega⟩

theorem Enough.less {z' : Int} (h : Enough z short ts fuel fuel') (hz : z' ≤ z) : Enough z' short ts fuel fuel' := by
  obtain ⟨hown, hother⟩ := h
  exact ⟨hown, by omega⟩

/-- after a token -/
theorem Enough.fewer {short' : Nat} (h : Enough z short ts (fuel + 1) (fuel' + 1)) (hshort : short ≤ 7)
    (hleft : left.length < ts.length) : Enough z short' left fuel fuel' := by
  obtain ⟨hown, hother⟩ := h
  exact ⟨by omega, by push_cast at hother; omega⟩

theorem Enough.succ (h : Enough z short ts fuel fuel') (hshort : short ≤ 7) : ∃ n, fuel = n + 1 := by
  have hown := h.own
  exact ⟨fuel - 1, by omega⟩

/-- the other reading has a step left, or else no cursor mirrors the first -/
theorem Follows.other_succ {x : Parse α} (rule : Nat → Parse α) (h : Enough z short ts fuel fuel') (hshort : short ≤ 7)
    (hf : ∀ n, Enough z short ts fuel (n + 1) → Follows z L x (rule (n + 1)) c ts) :
    Follows z L x (rule fuel') c ts := by
  obtain ⟨hown, hother⟩ := h
  cases fuel' with
  | succ n => exact hf n ⟨hown, hother⟩
  | zero =>
    have hfollows := hf 0 ⟨hown, by push_cast; omega⟩
    refine ⟨hfollows.passes, hfollows.stops, ?_, ?_⟩
    all_goals
      rintro _ _ _ used left used' left' _ rfl _ hm
      have hlength := hm.length
      omega

/-- a rule that starts with as many steps as the tokens left need -/
theorem Follows.start {f g : Cursor → Parse β} (h : c.At ts)
    (hf : ∀ {z' : Int} {c' : Cursor}, z' ≤ z → Enough z' 0 ts c.depth c'.depth → Follows z' L (f c) (g c') c ts) :
    Follows z L (get >>= f) (get >>= g) c ts := by
  have hown : 8 * (ts.length + 1) ≤ c.depth + 0 := by rw [h.depth]; omega
  have hself : Follows (min z 0) L (f c) (g c) c ts :=
    hf (min_le_left z 0) ⟨hown, by rw [h.depth]; push_cast; omega⟩
  refine ⟨fun hx => hself.passes hx, fun hx => hself.stops hx, ?_, ?_⟩
  all_goals
    rintro a d c' used left used' left' hx rfl hd ⟨hstands, hlength, hused, hnext⟩
    have hfollows : Follows ((used' ++ left').length - (used ++ left).length) L (f c) (g c') c (used ++ left) :=
      hf (by omega) ⟨hown, by rw [hstands.depth]; push_cast; omega⟩
  · exact hfollows.passes_mirrored hx rfl hd ⟨hstands, by omega, hused, hnext⟩
  · exact hfollows.stops_mirrored hx rfl hd ⟨hstands, by omega, hused, hnext⟩

end Parse

end TypedScript
