import MailFilter.Proofs.Reading.Invariant
import MailFilter.Proofs.Reading.Moves
import MailFilter.Proofs.Script.Pieces

/-!
# Where the pieces of a script come from

Every piece of a script that was read is one of its tokens, and stands where the token does.
-/

namespace MailFilter

open Reading

def Token.piece? (t : Token) : Option Piece :=
  match t.item with
  | .identifier name => some ⟨.name (Keyword.normalName name), t.pos⟩
  | .openBrace => some ⟨.opening, t.pos⟩
  | .comment text => some ⟨.comment text, t.pos⟩
  | _ =>
    match argument? t with
    | some (.ok a) => some ⟨.argument a.outline, t.pos⟩
    | _ => none

theorem Token.pos_of_piece? {t : Token} {x : Piece} (h : t.piece? = some x) : x.pos = t.pos := by
  unfold piece? at h
  split at h
  iterate 3
    · cases h
      rfl
  · split at h <;> cases h
    rfl

namespace Reading

variable {o : ReadOptions} {s s' : State} {head : Head} {holders : List Holder} {t : Token}

/-! ## The pieces of a state -/

def OpenTest.pieces (t : OpenTest) : List Piece := ⟨.name t.name, t.pos⟩ :: Argument.piecesAll t.arguments

def OpenList.pieces (l : OpenList) : List Piece := l.parent.pieces ++ l.tests.flatMap Test.pieces

def Holder.pieces : Holder → List Piece
  | .single parent => parent.pieces
  | .list l => l.pieces

def Frame.pieces (f : Frame) : List Piece :=
  f.head.pieces ++ ⟨.opening, f.opening⟩ :: Command.piecesAll f.before

def Phase.pieces : Phase → List Piece
  | .statement => []
  | .arguments head | .ended head => head.pieces
  | .testArguments head holders test => head.pieces ++ (holders.flatMap Holder.pieces ++ test.pieces)
  | .testName head holders list | .testEnd head holders list =>
    head.pieces ++ (holders.flatMap Holder.pieces ++ list.pieces)

def State.pieces (s : State) : List Piece :=
  s.pending.map Comment.piece ++ (s.frames.flatMap Frame.pieces ++
    (Command.piecesAll s.commands ++ s.phase.pieces))

theorem pieces_close (test : OpenTest) (ts : List (Test Pos)) :
    (test.close ts).pieces = test.pieces ++ ts.flatMap Test.pieces := by
  rw [OpenTest.close, Test.pieces, Argument.piecesAll_map_test]
  rfl

theorem mem_pieces_concat {head : Head} {a : Argument Pos} {x : Piece} :
    x ∈ ({ head with arguments := head.arguments ++ [a] } : Head).pieces ↔
      x ∈ head.pieces ∨ x ∈ a.pieces := by
  simp only [Head.pieces, Argument.piecesAll_append, Argument.piecesAll_single, List.mem_cons,
    List.mem_append]
  grind

theorem mem_pieces_closeTest {head : Head} {test : Test Pos} {holders : List Holder} {x : Piece} :
    x ∈ (closeTest head test holders).pieces ↔
      x ∈ head.pieces ∨ x ∈ holders.flatMap Holder.pieces ∨ x ∈ test.pieces := by
  fun_induction closeTest head test holders with
  | case1 test =>
      rw [Phase.pieces, mem_pieces_concat, Argument.pieces]
      simp
  | case2 test parent holders ih =>
      rw [ih, pieces_close]
      simp only [List.flatMap_cons, List.flatMap_nil, Holder.pieces, List.append_nil, List.mem_append]
      grind
  | case3 test l holders =>
      simp only [Phase.pieces, OpenList.pieces, Holder.pieces, List.flatMap_append, List.flatMap_cons,
        List.flatMap_nil, List.append_nil, List.mem_append]
      grind

theorem mem_pieces_finished {phase : Phase} {x : Piece} :
    x ∈ phase.finished.pieces ↔ x ∈ phase.pieces := by
  cases phase with
  | testArguments head holders test =>
      rw [Phase.finished, settle, mem_pieces_closeTest, pieces_close, Phase.pieces]
      · simp only [List.flatMap_nil, List.append_nil, List.mem_append]
      · nofun
  | statement | arguments | testName | testEnd | ended => exact Iff.rfl

theorem pieces_argument {a : Argument Pos} (h : argument? t = some (.ok a)) :
    a.pieces = t.piece?.toList := by
  obtain ⟨item, p⟩ := t
  cases item with
  | number text =>
      simp only [Token.piece?, h]
      simp only [argument?, Option.some.injEq] at h
      split at h <;> cases h
      rfl
  | quoted | multiline | strings | tag =>
      cases h
      rfl
  | _ => cases h

theorem mem_pieces_opens {phase : Phase} (h : Opens head phase holders) {x : Piece} :
    x ∈ phase.pieces ↔ x ∈ head.pieces ∨ x ∈ holders.flatMap Holder.pieces := by
  cases h with
  | command => simp [Phase.pieces]
  | single | list =>
      simp only [Phase.pieces, List.flatMap_cons, Holder.pieces, List.mem_append]
      grind

/-! ## Steps -/

theorem pieces_phase {phase : Phase} (h : ∀ x ∈ phase.pieces, x ∈ s.phase.pieces ∨ x ∈ t.piece?) :
    ∀ x ∈ State.pieces { s with phase }, x ∈ s.pieces ∨ x ∈ t.piece? := by
  intro x hx
  have hphase := h x
  simp only [State.pieces, List.mem_append] at hx ⊢
  grind

theorem pieces_moves (h : Moves o s t s') : ∀ x ∈ s'.pieces, x ∈ s.pieces ∨ x ∈ t.piece? := by
  have hargument : ∀ {a : Argument Pos}, argument? t = some (.ok a) → ∀ {x}, x ∈ a.pieces →
      x ∈ t.piece? := fun ha x hx => by
    rwa [pieces_argument ha, Option.mem_toList] at hx
  have hname : ∀ {name : String}, t.item = .identifier name →
      ⟨.name (Keyword.normalName name), t.pos⟩ ∈ t.piece? := fun ht => by
    rw [Token.piece?, ht]
    rfl
  cases h with
  | comment text ht =>
      intro x hx
      have hcomment : (⟨.comment text, t.pos⟩ : Piece) ∈ t.piece? := by
        rw [Token.piece?, ht]
        rfl
      simp only [State.pieces, List.map_append, List.map_cons, List.map_nil, Comment.piece,
        List.mem_append, List.mem_singleton] at hx ⊢
      obtain (hx | rfl) | hx := hx
      · exact .inl (.inl hx)
      · exact .inr hcomment
      · exact .inl (.inr hx)
  | command name hat ht =>
      intro x hx
      have hname := hname ht
      simp only [State.pieces, hat, Phase.pieces, Head.pieces, Argument.piecesAll, List.map_nil,
        List.nil_append, List.append_nil, List.mem_append, List.mem_cons] at hx ⊢
      obtain hx | hx | rfl | hx := hx
      · exact .inl (.inr (.inl hx))
      · exact .inl (.inr (.inr hx))
      · exact .inr hname
      · exact .inl (.inl hx)
  | closeBrace f frames hat hframes ht =>
      intro x hx
      left
      simp only [State.pieces, hat, hframes, Phase.pieces, Frame.pieces, Command.piecesAll_append,
        Command.piecesAll_single, Command.pieces, List.flatMap_cons, List.map_nil, List.nil_append,
        List.append_nil, List.mem_append, List.mem_cons] at hx ⊢
      grind
  | argument head a hat ht =>
      refine pieces_phase fun x hx => ?_
      rw [hat]
      exact (mem_pieces_concat.mp hx).imp_right (hargument ht)
  | testArgument head holders test a hat ht =>
      refine pieces_phase fun x hx => ?_
      have ha := @hargument a ht x
      simp only [hat, Phase.pieces, OpenTest.pieces, Argument.piecesAll_append,
        Argument.piecesAll_single, List.mem_append, List.mem_cons] at hx ⊢
      grind
  | test head holders name hat ht hdepth =>
      refine pieces_phase fun x hx => ?_
      have hname := hname ht
      rw [mem_pieces_opens hat]
      simp only [Phase.pieces, OpenTest.pieces, Argument.piecesAll, List.mem_append,
        List.mem_singleton] at hx
      obtain hx | hx | rfl := hx
      · exact .inl (.inl hx)
      · exact .inl (.inr hx)
      · exact .inr hname
  | openParen head holders test hat ht =>
      refine pieces_phase fun x hx => .inl ?_
      simpa only [hat, Phase.pieces, OpenList.pieces, List.flatMap_nil, List.append_nil] using hx
  | comma head holders list hat ht =>
      exact pieces_phase fun x hx => .inl (mem_pieces_finished.mp (hat ▸ hx))
  | closeParen head holders list hat ht =>
      refine pieces_phase fun x hx => .inl (mem_pieces_finished.mp ?_)
      rw [mem_pieces_closeTest, pieces_close] at hx
      simpa only [hat, Phase.pieces, OpenList.pieces, List.mem_append] using hx
  | semicolon head hat ht hknown =>
      intro x hx
      left
      have hhead : x ∈ head.pieces → x ∈ s.phase.pieces := fun hx => mem_pieces_finished.mp (hat ▸ hx)
      simp only [push, State.pieces, Command.piecesAll_append, Command.piecesAll_single,
        Command.pieces, Phase.pieces, List.append_nil, List.mem_append] at hx ⊢
      obtain hx | hx | hx | hx := hx
      · exact .inl hx
      · exact .inr (.inl hx)
      · exact .inr (.inr (.inl hx))
      · exact .inr (.inr (.inr (hhead hx)))
  | openBrace head hat ht hknown hdepth =>
      intro x hx
      have hhead : x ∈ head.pieces → x ∈ s.phase.pieces := fun hx => mem_pieces_finished.mp (hat ▸ hx)
      have hopening : (⟨.opening, t.pos⟩ : Piece) ∈ t.piece? := by
        rw [Token.piece?, ht]
        rfl
      simp only [State.pieces, Frame.pieces, Phase.pieces, Command.piecesAll, List.flatMap_cons,
        List.append_nil, List.mem_append, List.mem_cons] at hx ⊢
      obtain hx | ((hx | rfl | hx) | hx) := hx
      · exact .inl (.inl hx)
      · exact .inl (.inr (.inr (.inr (hhead hx))))
      · exact .inr hopening
      · exact .inl (.inr (.inr (.inl hx)))
      · exact .inl (.inr (.inl hx))

/-! ## Runs -/

theorem pieces_finish {stop : Option Pos} {b : Block} (h : finish s stop = .ok b) :
    ∀ x ∈ b.pieces, x ∈ s.pieces := by
  obtain ⟨hphase, hframes, rfl⟩ := eq_of_finish h
  intro x hx
  simp only [State.pieces, Block.pieces, hphase, hframes, List.mem_append] at hx ⊢
  grind

theorem pieces_run {ts : List Token} {b : Block} (h : run o s ts = .ok b) :
    ∀ x ∈ b.pieces, x ∈ s.pieces ∨ ∃ t ∈ ts, x ∈ t.piece? := by
  induction ts generalizing s with
  | nil => exact fun x hx => .inl (pieces_finish h x hx)
  | cons t ts ih =>
      rcases cases_of_run h with ⟨-, hfinish⟩ | ⟨s', hmoves, h⟩
      · exact fun x hx => .inl (pieces_finish hfinish x hx)
      · intro x hx
        rcases ih h x hx with hx | ⟨u, hu, hx⟩
        · exact (pieces_moves hmoves x hx).imp_right fun hx => ⟨t, List.mem_cons_self, hx⟩
        · exact .inr ⟨u, List.mem_cons_of_mem t hu, hx⟩

theorem pieces_assemble (b : Block) (filename : String) : (assemble b filename).pieces ⊆ b.pieces := by
  obtain ⟨commands, trailing, p⟩ := b
  unfold assemble
  split
  · next c rest hcs =>
      cases hcs
      split
      · split
        · refine List.append_subset.mpr ⟨?_, List.subset_append_right _ _⟩
          refine List.Subset.trans ?_ (List.subset_append_left _ _)
          exact List.append_subset.mpr ⟨List.subset_append_of_subset_left _ c.pieces_bare,
            List.subset_append_right _ _⟩
        · exact .refl _
      · exact .refl _
  · exact .refl _

end Reading

/-- Every piece of a script is one of its tokens. -/
theorem Script.exists_of_mem_pieces {ts : List Token} {filename : String} {o : ReadOptions} {t : Script}
    (h : ofTokens ts filename o = .ok t) : ∀ x ∈ t.pieces, ∃ token ∈ ts, token.piece? = some x := by
  obtain ⟨b, hrun, h⟩ := ok_of_bind h
  cases h
  intro x hx
  rcases Reading.pieces_run hrun x (Reading.pieces_assemble b filename hx) with hx | ⟨u, hu, hx⟩
  · cases hx
  · exact ⟨u, hu, hx⟩

end MailFilter
