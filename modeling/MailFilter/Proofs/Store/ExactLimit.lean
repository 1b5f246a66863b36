import MailFilter.Proofs.Store.Limits
import MailFilter.Proofs.Store.Trees

/-!
# The limit of a reader and the height in a store

A reader counts levels from the outside, while blocks and tests open.  A store counts them from the
inside, over the cells of the finished script.  Both come to the same, so a limit allows the scripts that
are no higher and no others.
-/

namespace MailFilter

variable {α τ : Type} [Leaf τ]

namespace Store

variable {s : Store} {lost : List CommandId} {first : BlockId} {c : CommandId}

theorem foldl_max_cons (n : Nat) (ns : List Nat) : (n :: ns).foldl max 0 = max n (ns.foldl max 0) := by
  refine eq_of_forall_ge_iff fun m => ?_
  rw [foldl_max_le, Nat.max_le, foldl_max_le, List.forall_mem_cons]
  simp only [Nat.zero_le, true_and]

theorem heightOf_unmarked {h : Head α τ} {h' : Head Mark Value} (hhead : h'.unmarked = h.unmarked) :
    Test.heightOf h'.arguments = Test.heightOf h.arguments := by
  have harguments : Argument.mapAll (fun _ => ()) Leaf.value h'.arguments =
      Argument.mapAll (fun _ => ()) Leaf.value h.arguments := congrArg Head.arguments hhead
  rw [← Test.heightOf_mapAll (f := fun _ => ()) Leaf.value h'.arguments, harguments,
    Test.heightOf_mapAll]

mutual

theorem Shows.heightTo : ∀ (t : Command α τ) {c : CommandId} {depth : Nat}, Shows s first c t →
    t.walk.length ≤ depth → s.heightTo depth c = t.height
  | .simple h, c, depth, ⟨_, hhead, hblock⟩, hdepth => by
      rw [Command.walk, List.length_singleton] at hdepth
      obtain ⟨depth, rfl⟩ := Nat.exists_eq_add_of_le' hdepth
      rw [Store.heightTo, hblock, Command.height]
      exact heightOf_unmarked hhead
  | .control h cs _ _, c, depth, ⟨_, hhead, b, hblock, _, _, hids⟩, hdepth => by
      rw [Command.walk, List.length_cons] at hdepth
      obtain ⟨depth, rfl⟩ := Nat.exists_eq_add_of_le' (Nat.le_of_add_left_le hdepth)
      rw [Store.heightTo, hblock, Command.height, heightOf_unmarked hhead]
      dsimp only
      rw [ShowsAll.heightTo cs hids (by omega)]

theorem ShowsAll.heightTo : ∀ (ts : List (Command α τ)) {ids : List CommandId} {depth : Nat},
    ShowsAll s first ids ts → (Command.walkAll ts).length ≤ depth →
    (ids.map (s.heightTo depth)).foldl max 0 = Command.heightAll ts
  | [], _, depth, hids, _ => by
      cases hids
      rfl
  | t :: ts, _, depth, ⟨c, rest, hids, hc, hrest⟩, hdepth => by
      rw [Command.walkAll, List.length_append] at hdepth
      rw [hids, List.map_cons, foldl_max_cons, Command.heightAll, Shows.heightTo t hc (by omega),
        ShowsAll.heightTo ts hrest (by omega)]

end

theorem scriptHeight_addScript [Located α] (h : s.Owned lost) (t : Script α τ) :
    (s.addScript t).1.scriptHeight s.scripts.size = Command.heightAll t.commands := by
  have hsize : t.walk.length ≤ (s.addScript t).1.commands.size := by
    have := size_addCommands t.commands (s.withTop t) s.blocks.size
    exact this ▸ Nat.le_add_left _ _
  exact ShowsAll.heightTo t.commands (showsAll_addScript h t) hsize

end Store

/-- A text that is a script under some limit is that script under another one exactly if the script is no
higher, and is refused for its depth otherwise. -/
theorem ofText_withLimit {source filename : String} {r : Registry} {limit : Value} {t : Script}
    (h : Script.ofText source filename ⟨r, limit⟩ = .ok t) (m : Nat) :
    (Script.ofText source filename ⟨r, .int m⟩ = .ok t ↔ (Store.ofScripts [t]).scriptHeight 0 ≤ m) ∧
      (¬ (Store.ofScripts [t]).scriptHeight 0 ≤ m → ∃ p : Pos,
        Script.ofText source filename ⟨r, .int m⟩ =
          .error (.tooDeep ⟨.int m, .int p.line, .int p.column⟩)) := by
  have hheight : (Store.ofScripts [t]).scriptHeight 0 = Command.heightAll t.commands :=
    Store.scriptHeight_addScript Store.owned_empty t
  obtain ⟨tokens, hcomplete, hread⟩ := ok_of_bind h
  have hother : Script.ofText source filename ⟨r, .int m⟩ =
      Script.ofTokens tokens filename ⟨r, .int m⟩ := by
    rw [Script.ofText, Script.ofTextIn, hcomplete]
    rfl
  obtain ⟨hfits, hdeep⟩ := Reading.ofTokens_withLimit hread m
  rw [hheight, hother]
  exact ⟨⟨Reading.heightAll_of_ofTokens, hfits⟩, hdeep⟩

/-- A test inside another one takes two levels, and the block after it one. -/
theorem withLimit_notTrue :
    (∃ t, Script.ofText "if not true { keep; }" "f" .default = .ok t ∧
      Script.ofText "if not true { keep; }" "f" ⟨.default, .int 2⟩ = .ok t) ∧
    ∃ p : Pos, Script.ofText "if not true { keep; }" "f" ⟨.default, .int 1⟩ =
      .error (.tooDeep ⟨.int 1, .int p.line, .int p.column⟩) := by
  obtain ⟨t, ht⟩ := exists_ok_of_isOk
    (show (Script.ofText "if not true { keep; }" "f" .default).isOk = true by decide +kernel)
  have hheight : ((Script.ofText "if not true { keep; }" "f" .default).toOption.map fun t =>
      (Store.ofScripts [t]).scriptHeight 0) = some 2 := by decide +kernel
  rw [ht] at hheight
  have hheight : (Store.ofScripts [t]).scriptHeight 0 = 2 := Option.some.inj hheight
  refine ⟨⟨t, ht, (ofText_withLimit ht 2).1.2 hheight.le⟩, (ofText_withLimit ht 1).2 ?_⟩
  rw [hheight]
  decide

end MailFilter
