import MailFilter.Proofs.Reading.Input
import MailFilter.Proofs.Reading.Steps
import MailFilter.Proofs.Result

/-!
# Commands and scripts read back

The tokens of a printable tree are read as a tree of the same outline, with the comments that the
layout writes for its comments.
-/

namespace MailFilter.Reading

open Layout

variable {α : Type} {o : ReadOptions} {l : LayoutOptions} {s : State} {ts : List Token}

/-! ## Comments -/

theorem reads_comments (s : State) {texts : List String}
    (hts : ts.map (·.item) = texts.map .comment) :
    ∃ cs, Reads o ts s { s with pending := s.pending ++ cs } ∧ cs.map (·.text) = texts := by
  induction texts generalizing s ts with
  | nil =>
      rw [List.map_nil, List.map_eq_nil_iff] at hts
      subst hts
      exact ⟨[], by rw [List.append_nil]; exact Reads.nil, rfl⟩
  | cons text texts ih =>
      rw [List.map_cons, List.map_eq_cons_iff] at hts
      obtain ⟨⟨_, p⟩, us, rfl, rfl, hus⟩ := hts
      obtain ⟨cs, hreads, htexts⟩ := ih { s with pending := s.pending ++ [⟨text, p⟩] } hus
      refine ⟨⟨text, p⟩ :: cs, Reads.cons rfl ?_, by rw [List.map_cons, htexts]⟩
      simpa using hreads

theorem outlineAll_comments {cs cs' : List Comment}
    (h : cs'.map (·.text) = commentTexts l (cs.map (·.text))) :
    Comment.outlineAll id cs' = Comment.outlineAll (commentTexts l) cs := by
  rw [Comment.outlineAll, Comment.outlineAll, ← h]
  rfl

/-! ## Heads -/

def EndsHead (o : ReadOptions) (P : Phase) (head : Head Pos) : Prop :=
  ∀ pending frames commands p item, item = .semicolon ∨ item = .openBrace →
    step o ⟨pending, frames, commands, P⟩ ⟨item, p⟩ =
      stepEnd o ⟨pending, frames, commands, P⟩ head ⟨item, p⟩

theorem endsHead_arguments (head : Head Pos) : EndsHead o (.arguments head) head := by
  rintro pending frames commands p _ (rfl | rfl) <;> rfl

theorem endsHead_of_settle {P : Phase} {head : Head Pos} (hclosing : IsClosing P)
    (h : settle P = .ended head) : EndsHead o P head := by
  intro pending frames commands p item hitem
  have := step_close (o := o) (s := ⟨pending, frames, commands, P⟩) hclosing (.inr (.inr hitem)) p
  rw [h] at this
  exact this

theorem reads_head {h : Head α} (hprint : h.Printable) {threshold : Option Nat}
    (hdepth : Permits o (s.frames.length + Test.heightOf h.arguments))
    (hts : ts.map (·.item) = headItems threshold h) :
    ∃ P head, Reads o ts { s with phase := .statement } { s with pending := [], phase := P } ∧
      EndsHead o P head ∧ head.name = h.name ∧ head.comments = s.pending ∧
      Argument.outlineAll head.arguments = Argument.outlineAll h.arguments := by
  rw [headItems, List.map_eq_cons_iff] at hts
  obtain ⟨⟨_, p⟩, us, rfl, rfl, hus⟩ := hts
  have hstart : step o { s with phase := .statement } ⟨.identifier h.name, p⟩ =
      .ok { s with pending := [], phase := .arguments ⟨h.name, [], s.pending, p⟩ } := by
    simp only [step, stepStatement, hprint.name.normalName]
  have htakes := takesArguments_command (o := o) ⟨h.name, [], s.pending, p⟩
  obtain ⟨plain, hplain, heq | ⟨t, heq, ht⟩⟩ := Argument.printableAll_cases hprint.arguments
  · rw [heq] at hus ⊢
    obtain ⟨as', hreads, has'⟩ := reads_plain htakes hplain { s with pending := [] } hus
    exact ⟨_, _, Reads.cons hstart hreads, endsHead_arguments _, rfl, rfl, has'⟩
  · rw [heq] at hus hdepth ⊢
    rw [heightOf_append, Test.heightOf, Test.heightOf] at hdepth
    rw [argumentsItems_append, List.flatten_append, argumentsItems, argumentsItems, argumentItems,
      List.flatten_singleton] at hus
    obtain ⟨vs, ws, rfl, hvs, hws⟩ := List.map_eq_append_iff.1 hus
    obtain ⟨as', hreads, has'⟩ := reads_plain htakes hplain { s with pending := [] } hvs
    have hopen : Opens ⟨h.name, as', s.pending, p⟩ (.arguments ⟨h.name, as', s.pending, p⟩) [] :=
      .command
    obtain ⟨t', ⟨P', htest, hclosing, hsettle⟩, ht'⟩ := reads_test (s := { s with pending := [] }) t ht
      hopen (hdepth.mono (by simp only [List.length_nil]; omega)) hws
    refine ⟨P', _, Reads.cons hstart (hreads.append htest), endsHead_of_settle hclosing hsettle, rfl,
      rfl, ?_⟩
    simp only [Argument.outlineAll_append, has', Argument.outlineAll, Argument.outline, ht']

theorem reads_opening {h : Head α} (hprint : h.Printable) (frames : List Frame)
    (before : List Command) (hdepth : Permits o (frames.length + Test.heightOf h.arguments))
    (hts : ts.map (·.item) = commentItems l h.comments ++ headItems l.threshold h) :
    ∃ P head, Reads o ts ⟨[], frames, before, .statement⟩ ⟨[], frames, before, P⟩ ∧
      EndsHead o P head ∧ head.outline id = h.outline (commentTexts l) := by
  obtain ⟨us, vs, rfl, hus, hvs⟩ := List.map_eq_append_iff.1 hts
  obtain ⟨cs, hcomments, hcs⟩ := reads_comments (o := o) ⟨[], frames, before, .statement⟩ hus
  obtain ⟨P, head, hhead, hends, hname, hpending, harguments⟩ :=
    reads_head (s := ⟨[] ++ cs, frames, before, .statement⟩) hprint hdepth hvs
  refine ⟨P, head, hcomments.append hhead, hends, ?_⟩
  rw [Head.outline, Head.outline, hname, harguments, hpending, List.nil_append,
    outlineAll_comments hcs]

/-! ## Commands -/

theorem name_of_outline {h : Head α} {head : Head Pos} {f g : List String → List String}
    (houtline : head.outline f = h.outline g) : head.name = h.name :=
  congrArg Head.name houtline

mutual

theorem reads_command (ho : o.registry = .default) : ∀ (c : Command α), c.Printable →
    ∀ (frames : List Frame) (before : List Command) {ts : List Token},
      Permits o (frames.length + c.height) → ts.map (·.item) = commandItems l c →
      ∃ c', Reads o ts ⟨[], frames, before, .statement⟩ ⟨[], frames, before ++ [c'], .statement⟩ ∧
        c'.outline id = c.outline (commentTexts l)
  | .simple h, ⟨hprint, hcontrol⟩, frames, before, ts, hdepth, hts => by
      rw [Command.height] at hdepth
      rw [commandItems] at hts
      obtain ⟨us, ws, rfl, hus, hws⟩ := List.map_eq_append_iff.1 hts
      obtain ⟨p, rfl⟩ := single_of_map hws
      obtain ⟨P, head, hreads, hends, houtline⟩ := reads_opening hprint frames before hdepth hus
      refine ⟨.simple head, hreads.append (Reads.single ?_), ?_⟩
      · rw [hends _ _ _ p _ (.inl rfl), stepEnd]
        dsimp only
        rw [ho, name_of_outline houtline, if_neg (by simpa using hcontrol)]
        rfl
      · rw [Command.outline, Command.outline, houtline]
  | .control h cs trailing opening, ⟨hprint, hcontrol, hinner⟩, frames, before, ts, hdepth, hts => by
      rw [Command.height] at hdepth
      rw [commandItems, List.append_assoc, List.append_assoc, List.append_assoc,
        List.singleton_append] at hts
      obtain ⟨us, ws, rfl, hus, hws⟩ := List.map_eq_append_iff.1 hts
      obtain ⟨⟨_, p⟩, block, rfl, rfl, hblock⟩ := List.map_eq_cons_iff.1 hws
      obtain ⟨vs, rest, rfl, hvs, hrest⟩ := List.map_eq_append_iff.1 hblock
      obtain ⟨xs, close, rfl, hxs, hclose⟩ := List.map_eq_append_iff.1 hrest
      obtain ⟨q, rfl⟩ := single_of_map hclose
      obtain ⟨P, head, hreads, hends, houtline⟩ :=
        reads_opening hprint frames before (hdepth.mono (by omega)) hus
      obtain ⟨cs', hcommands, hcs⟩ := reads_commands ho cs hinner (⟨head, p, before⟩ :: frames) []
        (hdepth.mono (by rw [List.length_cons]; omega)) hvs
      obtain ⟨trailing', hcomments, htrailing⟩ :=
        reads_comments (o := o) ⟨[], ⟨head, p, before⟩ :: frames, [] ++ cs', .statement⟩ hxs
      refine ⟨.control head cs' trailing' p, hreads.append (Reads.cons ?_
        (hcommands.append (hcomments.append (Reads.single ?_)))), ?_⟩
      · rw [hends _ _ _ p _ (.inr rfl), stepEnd]
        dsimp only
        rw [ho, name_of_outline houtline, if_neg (by simpa using hcontrol),
          hdepth _ p (by omega) (by omega)]
        rfl
      · simp only [step, stepStatement, List.nil_append]
      · rw [Command.outline, Command.outline, houtline, hcs, outlineAll_comments htrailing]

theorem reads_commands (ho : o.registry = .default) : ∀ (cs : List (Command α)),
    Command.PrintableAll cs →
    ∀ (frames : List Frame) (before : List Command) {ts : List Token},
      Permits o (frames.length + Command.heightAll cs) → ts.map (·.item) = commandsItems l cs →
      ∃ cs', Reads o ts ⟨[], frames, before, .statement⟩ ⟨[], frames, before ++ cs', .statement⟩ ∧
        Command.outlineAll id cs' = Command.outlineAll (commentTexts l) cs
  | [], _, frames, before, ts, _, hts => by
      rw [commandsItems, List.map_eq_nil_iff] at hts
      subst hts
      exact ⟨[], by rw [List.append_nil]; exact Reads.nil, rfl⟩
  | c :: cs, h, frames, before, ts, hdepth, hts => by
      rw [Command.heightAll] at hdepth
      rw [commandsItems] at hts
      obtain ⟨us, vs, rfl, hus, hvs⟩ := List.map_eq_append_iff.1 hts
      obtain ⟨c', hreads, hc⟩ := reads_command ho c h.1 frames before (hdepth.mono (by omega)) hus
      obtain ⟨cs', hreads', hcs⟩ :=
        reads_commands ho cs h.2 frames (before ++ [c']) (hdepth.mono (by omega)) hvs
      refine ⟨c' :: cs', hreads.append ?_, ?_⟩
      · rwa [List.append_assoc] at hreads'
      · rw [Command.outlineAll, Command.outlineAll, hc, hcs]

end

/-! ## Scripts -/

theorem Reads.run_eq {s' : State} (h : Reads o ts s s') (us : List Token) :
    run o s (ts ++ us) = run o s' us := by
  induction ts generalizing s with
  | nil =>
      cases h
      rfl
  | cons t ts ih =>
      rw [Reads, List.foldlM_cons] at h
      obtain ⟨u, hstep, h⟩ := ok_of_bind h
      rw [List.cons_append, run, if_neg (by simpa using not_endOfInput_of_step hstep), hstep]
      exact ih h

theorem run_append {s' : State} (h : Reads o ts s s') (stop : Option Pos) :
    run o s (ts ++ stop.toList.map (⟨.endOfInput, ·⟩)) = finish s' stop := by
  rw [h.run_eq]
  cases stop <;> rfl

end MailFilter.Reading
