import MailFilter.Proofs.Lexeme.Characters
import MailFilter.Proofs.Reading.Pieces
import MailFilter.Proofs.Script.Leaves

/-!
# Where the texts of a script come from

Every text in a script that was read is one of its tokens': a literal or a comment as it is, a name or
a tag perhaps in lower case.
-/

namespace MailFilter

open Reading

def Token.leaves (t : Token) : List String :=
  match t.item with
  | .identifier name => [Keyword.normalName name]
  | .tag name => [Text.lower name]
  | .quoted value | .multiline value => [value]
  | .strings values => values
  | .comment text => [text]
  | _ => []

theorem Token.leaves_of_piece? {t : Token} {x : Piece} (h : t.piece? = some x) :
    x.part.leaves = t.leaves := by
  obtain ⟨item, p⟩ := t
  cases item with
  | number text =>
      unfold piece? at h
      dsimp only at h
      split at h
      · next a ha =>
          simp only [argument?, Option.some.injEq] at ha
          split at ha <;> cases ha
          cases h
          rfl
      · cases h
  | identifier | tag | quoted | multiline | strings | openBrace | comment =>
      cases h
      rfl
  | _ => cases h

namespace Reading

theorem subset_of_declared? {as : List (Argument Pos)} {names : List String}
    (h : declared? as = some names) : names ⊆ Argument.leavesAll as := by
  unfold declared? at h
  split at h <;> cases h
  all_goals
    rw [Argument.leavesAll_single]
    exact .refl _

theorem capabilities_assemble (b : Block) (filename : String) :
    (assemble b filename).capabilities ⊆ b.leaves := by
  obtain ⟨commands, trailing, p⟩ := b
  have hhead : ∀ c : Command, c.head.leaves ⊆ c.leaves := fun c => by
    cases c with
    | simple head => exact .refl _
    | control head commands trailing opening => exact List.subset_append_left _ _
  unfold assemble
  split
  · next c rest hcs =>
      cases hcs
      split
      · split
        · next names hnames =>
            intro x hx
            have hx := subset_of_declared? hnames (List.mem_eraseDups.mp hx)
            have hx := hhead c (List.mem_cons_of_mem _ (List.mem_append_left _ hx))
            exact List.mem_append_left _ (List.mem_append_left _ hx)
        · exact List.nil_subset _
      · exact List.nil_subset _
  · exact List.nil_subset _

end Reading

theorem Script.leaves_of_ofTokens {ts : List Token} {filename : String} {o : ReadOptions} {t : Script}
    (h : ofTokens ts filename o = .ok t) : t.leaves ⊆ ts.flatMap Token.leaves := by
  obtain ⟨b, hrun, h⟩ := ok_of_bind h
  cases h
  have hblock : b.leaves ⊆ ts.flatMap Token.leaves := by
    intro text htext
    rw [← Block.leavesAll_pieces] at htext
    obtain ⟨x, hx, htext⟩ := List.mem_flatMap.mp htext
    rcases pieces_run hrun x hx with hstart | ⟨token, htoken, hpiece⟩
    · cases hstart
    · exact List.mem_flatMap.mpr ⟨token, htoken, Token.leaves_of_piece? hpiece ▸ htext⟩
  refine List.Subset.trans (List.append_subset.mpr ⟨capabilities_assemble b filename, ?_⟩) hblock
  rw [← Block.leavesAll_pieces, ← Block.leavesAll_pieces]
  exact Piece.leavesAll_subset (pieces_assemble b filename)

section Characters

variable {Q : Char → Prop} (hlower : ∀ s, Over Q s → Over Q (Text.lower s))

include hlower

theorem Token.over_leaves {t : Token} (h : ∀ s ∈ t.item.texts, Over Q s) : ∀ x ∈ t.leaves, Over Q x := by
  obtain ⟨item, p⟩ := t
  cases item with
  | identifier name =>
      have hname : Over Q name := h name (List.mem_singleton_self _)
      refine List.forall_mem_singleton.mpr ?_
      unfold Keyword.normalName
      split
      · exact hlower name hname
      · exact hname
  | tag name => exact List.forall_mem_singleton.mpr (hlower name (h name (List.mem_singleton_self _)))
  | quoted | multiline | strings | comment => exact h
  | _ => exact List.forall_mem_nil _

/-- The texts of a script are made of characters of its source, of their lower case forms, and of line
feeds. -/
theorem Script.over_leaves_of_ofTextIn (hbreak : Q '\n') {charset source filename : String}
    {o : ReadOptions} {t : Script} (hsource : Over Q source)
    (h : ofTextIn charset source filename o = .ok t) : ∀ x ∈ t.leaves, Over Q x := by
  obtain ⟨tokens, htokens, h⟩ := ok_of_bind h
  obtain ⟨ts, p, rfl, hitems⟩ := Reading.items_of_complete htokens
  intro x hx
  obtain ⟨token, htoken, hx⟩ := List.mem_flatMap.1 (leaves_of_ofTokens h hx)
  rcases List.mem_append.1 htoken with htoken | htoken
  · have hmem : token.item ∈ (Lexeme.split source.toList).lexemes.filterMap (·.item) :=
      hitems ▸ List.mem_map_of_mem htoken
    obtain ⟨l, hl, hitem⟩ := List.mem_filterMap.1 hmem
    exact token.over_leaves hlower (Lexeme.over_of_split hbreak hsource hl token.item hitem) x hx
  · rw [List.mem_singleton.mp htoken] at hx
    cases hx

end Characters

end MailFilter
