import FlatSchema.Proofs.ParsedSentence

/-!
# Progress of the parser

Every repetition of the parser ends: each of its rounds leaves fewer tokens
unread.  A round that fails without reading anything fails at a token at which
recovery does not stop, so recovery reads it.  `ItemRounds` and `MemberRounds`
say what reading items and members gives by the rounds alone, without a
measure.
-/

namespace FlatSchema

open Grammar

namespace Parser

variable {α : Type} {s next : ParserState} {tok : Token} {rest : List Token}

/-! ## Rounds -/

/-- One round of reading members: a member, or recovery where it fails. -/
def memberRound (member : Parser α) (read : List α) (s : ParserState) : List α × ParserState :=
  match member s with
  | .done v next => (read ++ [v], next)
  | .failed next => (read, recoverMember { next with docs := [] })

/-- One round of reading items: an item, a lone semicolon, or recovery. -/
def itemRound (ns : List String) (s : ParserState) : List Item × ParserState :=
  match item ns s with
  | .done (some v) next => ([v], next)
  | .done none next => ([], next)
  | .failed next => ([], recoverItem 0 { next with docs := [] })

/-- What reading members gives, round by round; each round leaves fewer tokens. -/
inductive MemberRounds (member : Parser α) :
    List α → ParserState → Reply (List α × Span) → Prop where
  | closed {read : List α} {s : ParserState} (closes : (head (settle s)).isPunct '}') :
      MemberRounds member read s
        (.done (read, (head (settle s)).span)
          { settle s with rest := (settle s).rest.tail, docs := [] })
  | ended {read : List α} {s : ParserState} (goesOn : ¬ (head (settle s)).isPunct '}')
      (ends : (head (settle s)).isEof) :
      MemberRounds member read s (fail "\"\x7d\"" (settle s))
  | round {read : List α} {s : ParserState} {reply : Reply (List α × Span)}
      (goesOn : ¬ (head (settle s)).isPunct '}') (inside : ¬ (head (settle s)).isEof)
      (fewer : (memberRound member read (settle s)).2.rest.length < s.rest.length)
      (others : MemberRounds member (memberRound member read (settle s)).1
        (memberRound member read (settle s)).2 reply) :
      MemberRounds member read s reply

/-- What reading items gives, round by round; each round leaves fewer tokens. -/
inductive ItemRounds :
    List String → List Item → ParserState → List Item × List Diagnostic → Prop where
  | ended {ns : List String} {read : List Item} {s : ParserState}
      (ends : (head (settle s)).isEof) : ItemRounds ns read s (read, (settle s).reports)
  | round {ns : List String} {read : List Item} {s : ParserState}
      {res : List Item × List Diagnostic} (inside : ¬ (head (settle s)).isEof)
      (fewer : (itemRound ns (settle s)).2.rest.length < s.rest.length)
      (others : ItemRounds ((itemRound ns (settle s)).1.foldl Item.scopeAfter ns)
        (read ++ (itemRound ns (settle s)).1) (itemRound ns (settle s)).2 res) :
      ItemRounds ns read s res

/-! ## Recovery -/

theorem recoverMember_skips (opened : (settle s).rest = tok :: rest) (goes : ¬ tok.isPunct '}') :
    (recoverMember s).rest <:+ rest := by
  rw [recoverMember]
  split
  · next empty => simp [empty] at opened
  · next hd tl same =>
      cases same.symm.trans opened
      rw [if_neg goes]
      split
      · exact List.suffix_rfl
      · exact (recoverMember_passes _).isSuffix

theorem recoverItem_skips (opened : (settle s).rest = tok :: rest) (goes : ¬ startsItem tok) :
    (recoverItem 0 s).rest <:+ rest := by
  rw [recoverItem]
  split
  · next empty => simp [empty] at opened
  · next hd tl same =>
      cases same.symm.trans opened
      rw [if_neg (by simpa using goes)]
      split
      · exact (recoverItem_passes _ _).isSuffix
      · split
        · exact List.suffix_rfl
        · exact (recoverItem_passes _ _).isSuffix

/-- Recovery leaves fewer tokens if the failure has read one or recovery does not stop there. -/
theorem length_recover_lt {recover : ParserState → ParserState} {stops : Token → Prop}
    (passes : ∀ s, Passes s (recover s))
    (skips : ∀ {s tok rest}, (settle s).rest = tok :: rest → ¬ stops tok →
      (recover s).rest <:+ rest)
    (eof : s.last.kind = .eof) (inside : ¬ (head (settle s)).isEof)
    (behind : next.rest <:+ (settle s).rest)
    (moved : stops (head (settle s)) → next.rest.length < (settle s).rest.length) :
    (recover { next with docs := [] }).rest.length < s.rest.length := by
  have short := length_settle_le s
  rcases head_settle_cases s with ⟨_, isLast⟩ | ⟨tok, rest, opened, isHead, plain⟩
  · exact absurd (by rw [isLast, Token.isEof, eof]; rfl) inside
  by_cases fewer : next.rest.length < (settle s).rest.length
  · have less := (passes { next with docs := [] }).isSuffix.length_le
    exact Nat.lt_of_le_of_lt less (Nat.lt_of_lt_of_le fewer short)
  · have same := behind.eq_of_length (Nat.le_antisymm behind.length_le (Nat.le_of_not_lt fewer))
    have again : (settle { next with docs := [] }).rest = tok :: rest := by
      show (absorb [] next.rest).2 = _
      rw [same, opened, absorb, if_neg plain]
    have less := (skips again (isHead ▸ fun stop => fewer (moved stop))).length_le
    rw [opened] at short
    exact Nat.lt_of_le_of_lt less short

/-! ## Members -/

section

variable {member : Parser α} {means : List Token → α → Prop} {doc : α → List String}
  {outlines : α → List Outline}

theorem length_memberRound_lt (sound : ∀ src, Sound src member means doc outlines)
    (nonempty : ∀ {used v}, means used v → used ≠ []) (eof : s.last.kind = .eof)
    (goesOn : ¬ (head (settle s)).isPunct '}') (inside : ¬ (head (settle s)).isEof)
    (read : List α) :
    (memberRound member read (settle s)).2.rest.length < s.rest.length ∧
      (memberRound member read (settle s)).2.last.kind = .eof := by
  have one := sound (settle s) (.refl eof)
  unfold memberRound
  cases ended : member (settle s) with
  | done v next =>
    rw [ended] at one
    rcases one with ⟨used, here, denoted, _⟩
    exact ⟨Nat.lt_of_lt_of_le (here.length_lt (nonempty denoted)) (length_settle_le s), here.eof⟩
  | failed next =>
    rw [ended] at one
    refine ⟨length_recover_lt recoverMember_passes recoverMember_skips eof inside
      one.passes.isSuffix fun stops => absurd stops goesOn, ?_⟩
    rw [(recoverMember_passes _).last_eq, one.passes.last_eq]
    exact eof

theorem memberRounds_members (sound : ∀ src, Sound src member means doc outlines)
    (nonempty : ∀ {used v}, means used v → used ≠ []) (eof : s.last.kind = .eof)
    (read : List α) : MemberRounds member read s (members member read s) := by
  induction len : s.rest.length using Nat.strongRecOn generalizing s read with
  | ind bound ih =>
  rw [members]
  split
  · next closes => exact .closed closes
  · next goesOn =>
      split
      · next ends => exact .ended goesOn ends
      · next inside =>
          rcases length_memberRound_lt sound nonempty eof goesOn inside read with ⟨fewer, last⟩
          refine .round goesOn inside fewer ?_
          let next := memberRound member read (settle s)
          show MemberRounds member _ _ (if next.2.rest.length < s.rest.length then
            members member next.1 next.2 else .failed next.2)
          rw [if_pos fewer]
          exact ih _ (len ▸ fewer) last next.1 rfl

end

/-! ## Items -/

theorem item_run {kw : Keyword} (opened : s.rest = tok :: rest) (kind : tok.kind = .keyword kw)
    (begins : kw.startsItem) (ns : List String) :
    item ns s = (itemAfter kw tok.span s.docs ns { s with rest := rest, docs := [] }).andThen
      fun v post => .done (some v) post := by
  rcases s with ⟨_, last, docs, reports⟩
  cases opened
  have settles (docs : List String) : absorb docs (tok :: rest) = (docs, tok :: rest) := by
    simp [absorb, kind]
  have mark : tok.isPunct ';' = false := by simp [Token.isPunct, kind]
  simp only [item, bind_run, takeDoc, current, settle, settles, Reply.andThen, head,
    List.headD_cons, mark, kind, begins, advance, List.tail_cons, if_true, Bool.false_eq_true,
    if_false]
  rfl

/-- An item that fails behind the word that begins it has read that word. -/
theorem length_lt_of_item_failed (eof : s.last.kind = .eof) (starts : startsItem tok)
    (opened : s.rest = tok :: rest) (failed : item ns s = .failed next) :
    next.rest.length < s.rest.length := by
  unfold startsItem at starts
  split at starts
  · next kw kind =>
      -- the state behind the word, and the same with the documentation that was taken
      have here := (Retains.refl (s := { s with rest := rest }) eof).dropDocs
      have lines : s.docs ⊆ ({ s with rest := rest } : ParserState).lines :=
        List.subset_append_left _ _
      have one : Ends { s with rest := rest } _
          (itemAfter kw tok.span s.docs ns { s with rest := rest, docs := [] }) :=
        sound_itemAfter starts lines here
      rw [item_run opened kind starts] at failed
      cases ended : itemAfter kw tok.span s.docs ns { s with rest := rest, docs := [] } with
      | done v post => simp [ended, Reply.andThen] at failed
      | failed post =>
        rw [ended] at one failed
        cases failed
        rw [opened]
        exact Nat.lt_succ_of_le one.passes.isSuffix.length_le
  · cases starts

theorem length_itemRound_lt (eof : s.last.kind = .eof) (inside : ¬ (head (settle s)).isEof)
    (ns : List String) :
    (itemRound ns (settle s)).2.rest.length < s.rest.length ∧
      (itemRound ns (settle s)).2.last.kind = .eof := by
  have one := sound_item ns (.refl eof : Retains (settle s) [] (settle s))
  unfold itemRound
  cases ended : item ns (settle s) with
  | done hit next =>
    rw [ended] at one
    rcases one with ⟨used, here, ⟨nonempty, _⟩, _⟩
    have fewer := Nat.lt_of_lt_of_le (here.length_lt nonempty) (length_settle_le s)
    cases hit with
    | none => exact ⟨fewer, here.eof⟩
    | some v => exact ⟨fewer, here.eof⟩
  | failed next =>
    rw [ended] at one
    refine ⟨length_recover_lt (recoverItem_passes 0) recoverItem_skips eof inside
      one.passes.isSuffix fun starts => ?_, ?_⟩
    · rcases head_settle_cases s with ⟨_, isLast⟩ | ⟨tok, rest, opened, isHead, _⟩
      · simp [isLast, startsItem, eof] at starts
      · exact length_lt_of_item_failed eof (isHead ▸ starts) opened ended
    · rw [(recoverItem_passes _ _).last_eq, one.passes.last_eq]
      exact eof

theorem itemRounds_items (eof : s.last.kind = .eof) (ns : List String) (read : List Item) :
    ItemRounds ns read s (items ns read s) := by
  induction len : s.rest.length using Nat.strongRecOn generalizing s ns read with
  | ind bound ih =>
  rw [items]
  split
  · next ends => exact .ended ends
  · next inside =>
      rcases length_itemRound_lt eof inside ns with ⟨fewer, last⟩
      refine .round inside fewer ?_
      let next := itemRound ns (settle s)
      show ItemRounds _ _ _ (if next.2.rest.length < s.rest.length then
        items (next.1.foldl Item.scopeAfter ns) (read ++ next.1) next.2 else (read, next.2.reports))
      rw [if_pos fewer]
      exact ih _ (len ▸ fewer) last _ _ rfl

/-! ## Repetitions without recovery -/

theorem Ends.andThen_congr {β : Type} {reply : Reply α} {holds : α → ParserState → Prop}
    {fst snd : α → ParserState → Reply β} (ends : Ends s holds reply)
    (same : ∀ v post, holds v post → fst v post = snd v post) :
    reply.andThen fst = reply.andThen snd := by
  cases reply with
  | done v post => exact same v post ends
  | failed post => rfl

/-- A comma behind a part leaves fewer tokens. -/
theorem comma_progress {β : Type} {kept : List Token} {more : ParserState → Reply β}
    {otherwise : ParserState → Reply β} (here : Retains s kept next) :
    ((eatPunct ',' next).andThen fun eaten post =>
        if eaten then if post.rest.length < s.rest.length then more post else .failed post
        else otherwise post) =
      (eatPunct ',' next).andThen fun eaten post =>
        if eaten then more post else otherwise post := by
  refine Ends.andThen_congr (here.eatPunct ',') ?_
  rintro eaten post (⟨rfl, comma, _, here⟩ | ⟨rfl, _⟩)
  · simp only [if_true]
    rw [if_pos (here.length_lt (by simp))]
  · rfl

/-- Reading entries goes on behind each comma. -/
def EntriesGoOn (entry : Parser α) (s : ParserState) : Prop :=
  ∀ read, entries entry read s =
    if (head (settle s)).isPunct '}' then
      .done (read, (head (settle s)).span)
        { settle s with rest := (settle s).rest.tail, docs := [] }
    else (entry (settle s)).andThen fun v next =>
      (eatPunct ',' next).andThen fun eaten post =>
        if eaten then entries entry (read ++ [v]) post
        else (expectPunct '}' post).andThen fun closing final =>
          .done (read ++ [v], closing.span) final

theorem entriesGoOn {entry : Parser α} {means : List Token → α → Prop} {doc : α → List String}
    {outlines : α → List Outline} (sound : ∀ src, Sound src entry means doc outlines)
    (eof : s.last.kind = .eof) : EntriesGoOn entry s := by
  intro read
  rw [entries]
  congr 1
  refine Ends.andThen_congr (sound s (Retains.refl eof).settle) ?_
  rintro v next ⟨used, here, _⟩
  exact comma_progress here

/-- Reading items and members is a sequence of rounds each of which leaves fewer tokens, and the
repetitions without recovery go on behind each part that they have read. -/
structure Progresses (s : ParserState) : Prop where
  items : ∀ ns read, ItemRounds ns read s (items ns read s)
  fields : ∀ read, MemberRounds field read s (members field read s)
  methods : ∀ read, MemberRounds method read s (members method read s)
  enumValues : EntriesGoOn enumValue s
  variants : EntriesGoOn variant s
  attributes : ∀ attrs, attributeTail attrs s = (attributeEntry s).andThen fun e next =>
    (eatPunct ',' next).andThen fun eaten post =>
      if eaten then attributeTail (attrs ++ [e]) post
      else (expectPunct ')' post).andThen fun _ final => .done (attrs ++ [e]) final
  names : ∀ parts span, nameTail parts span s =
    if (head (settle s)).isPunct '.' then
      (expectIdent "identifier after \".\"" (step s)).andThen fun hit next =>
        nameTail (parts ++ [hit.1]) hit.2 next
    else .done (parts, span) (settle s)

/-- Every repetition of the parser progresses, whatever tokens are left before the end of the file,
and so does parsing from its start. -/
theorem parser_progresses (rest : List Token) (text : String) (span : Span) (docs : List String)
    (reports : List Diagnostic) :
    Progresses ⟨rest, ⟨.eof, text, span⟩, docs, reports⟩ ∧
      start (rest ++ [⟨.eof, text, span⟩]) = ⟨rest, ⟨.eof, text, span⟩, [], []⟩ := by
  have methodOf_ne_nil {used v} : MethodOf used v → used ≠ [] := by
    rintro ⟨⟩
    exact List.cons_ne_nil _ _
  refine ⟨⟨itemRounds_items rfl, memberRounds_members (fun _ => sound_field) fieldOf_ne_nil rfl,
    memberRounds_members (fun _ => sound_method) methodOf_ne_nil rfl,
    entriesGoOn (fun _ => sound_enumValue) rfl, entriesGoOn (fun _ => sound_variant) rfl,
    ?_, ?_⟩, ?_⟩
  · intro attrs
    rw [attributeTail]
    refine Ends.andThen_congr (sound_attributeEntry (.refl rfl)) ?_
    rintro e next ⟨used, here, _⟩
    exact comma_progress here
  · intro parts span
    rw [nameTail_run]
    split
    · next dot =>
        refine Ends.andThen_congr (((Retains.refl rfl).stepPunct dot).expectIdent _) ?_
        rintro hit next ⟨tok, _, _, here⟩
        rw [if_pos (here.length_lt (by simp))]
    · rfl
  · simp [start]

end Parser

end FlatSchema
