import MailFilter.Proofs.RuleNames
import MailFilter.Proofs.Store.Declaring
import MailFilter.Proofs.Store.Saving
import MailFilter.Proofs.Store.Trees

/-!
# Names that are given to rules

A command of a script that was read can be given every name that has one line and no closing bracket.
It has the name then, next to whatever comments it had, and has it again when the script is written
and read back.
-/

namespace MailFilter

open Layout

/-! ## Labels -/

def ruleLabel (name : String) : String := " rule:[" ++ name ++ "]"

/-- A text that can be the name of a rule: it has one line, and no bracket closes in it. -/
def IsRuleName (name : String) : Prop := ∀ c ∈ name.toList, Store.isRuleEnd c = false

instance (name : String) : Decidable (IsRuleName name) := List.decidableBAll _ _

section Labels

variable {name : String}

theorem toList_ruleLabel (name : String) :
    (ruleLabel name).toList = ' ' :: ("rule:".toList ++ '[' :: (name.toList ++ [']'])) := by
  have hopening : " rule:[".toList = ' ' :: ("rule:".toList ++ ['[']) := by decide
  have hclosing : "]".toList = [']'] := by decide
  rw [ruleLabel, String.toList_append, String.toList_append, hopening, hclosing]
  simp only [List.cons_append, List.append_assoc, List.nil_append]

theorem trim_ruleLabel (name : String) :
    Text.trim (ruleLabel name).toList = "rule:".toList ++ '[' :: (name.toList ++ [']']) := by
  have hblank : ∀ c ∈ [' '], Text.isBlank c = true := List.forall_mem_singleton.2 rfl
  have hfront : ∀ cs, ("rule:".toList ++ cs).dropWhile Text.isBlank = "rule:".toList ++ cs :=
    fun _ => rfl
  rw [toList_ruleLabel, ← List.singleton_append, Text.trim_blanks_append hblank, Text.trim, hfront]
  -- The closing bracket ends the text, so the blanks at the end of the name stay.
  refine Lexeme.dropTrailing_eq_self fun c hc => ?_
  rw [← List.cons_append, ← List.append_assoc, List.getLast?_concat, Option.mem_some_iff] at hc
  exact hc ▸ rfl

theorem IsRuleName.not_break (h : IsRuleName name) : '\n' ∉ name.toList := fun hmem =>
  absurd (h '\n' hmem) (by decide)

theorem ruleName?_ruleLabel (h : IsRuleName name) : ruleName? (ruleLabel name) = some name := by
  have hdrop : ("rule:".toList ++ '[' :: (name.toList ++ [']'])).drop 5 =
      '[' :: (name.toList ++ [']']) := rfl
  have hopening : ('[' :: (name.toList ++ [']'])).dropWhile Text.isBlank =
      '[' :: (name.toList ++ [']']) := rfl
  have hprefix : "rule:".toList.isPrefixOf ("rule:".toList ++ '[' :: (name.toList ++ [']'])) = true :=
    List.isPrefixOf_iff_prefix.2 (List.prefix_append _ _)
  unfold ruleName?
  simp only [trim_ruleLabel, hprefix, if_true, hdrop]
  simp [hopening, h.not_break]

theorem lineName?_ruleLabel (h : IsRuleName name) : lineName? (ruleLabel name) = some name := by
  have hbreak : '\n' ∉ (ruleLabel name).toList := by
    rw [toList_ruleLabel]
    simp [h.not_break]
  have hline : IsOneLine (ruleLabel name) := by
    rw [IsOneLine, lines_of_not_mem hbreak]
    exact List.countP_le_length
  rw [hline.lineName?_eq, ruleName?_ruleLabel h]

theorem lastName?_commentLines_concat_ruleLabel (h : IsRuleName name) (texts : List String) :
    lastName? (commentLines (texts ++ [ruleLabel name])) = some name := by
  have hname := lineName?_ruleLabel h
  rw [lastName?_commentLines, List.reverse_append, List.reverse_singleton, List.singleton_append,
    List.findSome?_cons_of_isSome (by rw [hname]; rfl), hname]

end Labels

/-! ## Walks over trees -/

section Walks

variable {α β σ τ : Type}

theorem Command.walkAll_eq_flatMap (cs : List (Command α τ)) : walkAll cs = cs.flatMap walk := by
  induction cs with
  | nil => rfl
  | cons c cs ih => rw [walkAll, ih, List.flatMap_cons]

mutual

theorem Command.walk_map (f : α → β) (g : τ → σ) :
    ∀ c : Command α τ, (c.map f g).walk = c.walk.map (Command.map f g)
  | .simple _ => rfl
  | .control _ cs _ _ => congrArg (_ :: ·) (Command.walkAll_mapAll f g cs)

theorem Command.walkAll_mapAll (f : α → β) (g : τ → σ) : ∀ cs : List (Command α τ),
    walkAll (mapAll f g cs) = (walkAll cs).map (Command.map f g)
  | [] => rfl
  | c :: cs => by
      rw [mapAll, walkAll, walkAll, List.map_append, Command.walk_map f g c,
        Command.walkAll_mapAll f g cs]

end

end Walks

namespace Store

variable {s s' : Store} {lost : List CommandId} {k : ScriptId} {c : CommandId}
  {o : LayoutOptions} {name : String}

theorem walk_treeTo (s : Store) (depth : Nat) (c : CommandId) :
    (s.treeTo depth c).walk.map Command.head =
      (s.walkTo (depth + 1) c).map fun d => (s.command d).head := by
  induction depth generalizing c with
  | zero =>
      have hnone : (s.children c).flatMap (s.walkTo 0) = [] := List.flatMap_eq_nil_iff.2 fun _ _ => rfl
      rw [walkTo, hnone]
      rfl
  | succ depth ih =>
      rw [treeTo, walkTo, children]
      cases (s.command c).block with
      | none => rfl
      | some b =>
          simp only [Command.walk, Command.walkAll_eq_flatMap, List.map_cons, List.map_flatMap,
            List.flatMap_map, ih]
          rfl

theorem Owned.walk_scriptTree (h : s.Owned lost) (k : ScriptId) :
    (s.scriptTree k).settled.walk.map Command.head = (s.heads k).map (Head.map id Leaf.plain) := by
  have hwalk : (s.scriptTree k).walk.map Command.head = s.heads k := by
    rw [Script.walk, Script.commands, scriptTree, Command.walkAll_eq_flatMap, List.flatMap_map,
      List.map_flatMap, heads, walkScript, List.map_flatMap]
    refine List.flatMap_congr fun d hd => ?_
    rw [tree, walk_treeTo, h.walkTo_eq_walk (h.command_lt hd) (Nat.le_succ _)]
  have hsettled : (s.scriptTree k).settled.walk =
      (s.scriptTree k).walk.map (Command.map id Leaf.plain) :=
    Command.walkAll_mapAll id Leaf.plain _
  rw [hsettled, ← hwalk, List.map_map, List.map_map]
  exact List.map_congr_left fun d _ => head_settled d

theorem Owned.comments_readBack (h : s.Owned lost) (hcomments : o.comments = true) {u : Script}
    (houtline : u.outline id = (s.scriptTree k).settled.outline (Layout.commentTexts o)) :
    List.Forall₂ (fun c d => d.head.comments.map (·.text) =
      commentLines ((s.command c).head.comments.map (·.text.plain))) (s.walkScript k) u.walk := by
  have htexts : List.Forall₂ (fun head d => d.head.comments.map (·.text) =
      commentLines (head.comments.map (·.text)))
      ((s.scriptTree k).settled.walk.map Command.head) u.walk :=
    List.forall₂_map_left_iff.2 ((Script.forall₂_walk_of_outline houtline.symm).imp
      fun _ _ => comments_of_outline hcomments)
  rw [h.walk_scriptTree, heads, List.map_map, List.forall₂_map_left_iff] at htexts
  refine htexts.imp fun c d hd => ?_
  rw [hd, Function.comp_apply, Head.map, List.map_map]
  rfl

/-! ## Fronts of new scripts -/

/-- The first command of a script does not declare anything itself. -/
def Fronted (s : Store) (k : ScriptId) : Prop :=
  ∀ c ∈ (s.block (s.script k).block).commands.head?, (s.command c).head.keyword? = some .require →
    Argument.isDeclaration (Argument.mapAll id Leaf.plain (s.command c).head.arguments) = false

theorem keyword?_settled (c : Command Mark Value) (hname : ∃ name, c.head.name = .text name) :
    c.settled.head.keyword? = c.head.keyword? := by
  obtain ⟨name, hname⟩ := hname
  rw [head_settled, Head.keyword?, Head.keyword?, Head.map, hname]
  rfl

theorem Fronted.opensWithDeclaration (hall : s.AllWritten) (h : s.Owned lost) (hfront : s.Fronted k) :
    (s.scriptTree k).settled.opensWithDeclaration = false := by
  rw [Script.opensWithDeclaration_eq_false, settled_scriptTree, List.head?_map]
  intro t ht
  obtain ⟨c, hc, rfl⟩ := Option.mem_map.1 ht
  obtain ⟨head, -, hhead, -⟩ := hall.commands c (h.command_lt (List.mem_of_mem_head? hc))
  have htree : (s.tree c).head = (s.command c).head := head_treeTo _ c
  rw [keyword?_settled _ ⟨head.name, by rw [htree, hhead]; rfl⟩, head_settled, htree]
  exact hfront c hc

theorem isDeclaration_mapAll {α β : Type} (f : α → β) (as : List (Argument α)) :
    Argument.isDeclaration (Argument.mapAll f id as) = Argument.isDeclaration as := by
  match as with
  | [] => rfl
  | [a] => cases a <;> rfl
  | _ :: _ :: _ => simp [Argument.mapAll, Argument.isDeclaration]

theorem fronted_addScript (h : s.Owned lost) {t : Script} (hprint : t.Printable) :
    (s.addScript t).1.Fronted s.scripts.size := by
  have hshows := showsAll_addScript h t
  have hfront := hprint.front
  intro c hc
  cases htops : t.commands with
  | nil =>
      rw [htops] at hshows
      rw [show _ = _ from hshows] at hc
      cases hc
  | cons first rest =>
      rw [htops] at hshows hfront
      obtain ⟨d, ids, hids, hfirst, -⟩ := hshows
      rw [hids, List.head?_cons, Option.mem_some_iff] at hc
      subst hc
      have hhead : ((s.addScript t).1.command d).head.unmarked = first.head.unmarked := by
        cases first <;> exact hfirst.2.1
      simp only [Head.unmarked, Head.map, Head.mk.injEq, and_true] at hhead
      obtain ⟨as, has, hsame⟩ := Argument.exists_textAll _ _ hhead.2.1
      have hname : ((s.addScript t).1.command d).head.name = .text first.head.name := hhead.1
      rw [Head.keyword?, hname, has, Argument.mapAll_plain, ← isDeclaration_mapAll (fun _ => ()), hsame,
        isDeclaration_mapAll]
      exact hfront first rfl

/-! ## Naming -/

theorem exists_nameRule (hlt : c < s.commands.size) (hname : IsRuleName name)
    (hcomments : ∃ cs : List Comment, (s.command c).head.comments = cs.map (·.map Value.text)) :
    ∃ s', s.nameRule c (some (.text name)) = .ok s' ∧
      (s'.command c).head.comments =
        ((s.command c).head.comments.filter fun m => m.ruleName?.isNone) ++ [ruleComment (.text name)] ∧
      s'.walkScript k = s.walkScript k := by
  have hends : endsRule (.text name) = .ok false := by
    rw [endsRule, List.any_eq_false.2 fun c hc => by rw [hname c hc]; exact Bool.false_ne_true]
  have hwords : (s.command c).head.comments.forM (·.text.fitWord) = .ok () := by
    obtain ⟨cs, hcs⟩ := hcomments
    rw [hcs]
    exact forM_eq_ok.2 (List.forall_mem_map.2 fun _ _ => rfl)
  obtain ⟨s', hok⟩ : ∃ s', s.nameRule c (some (.text name)) = .ok s' := by
    simp only [nameRule, hends, hwords]
    exact ⟨_, rfl⟩
  obtain ⟨comments, rfl, rfl⟩ := nameRule_ok hok
  refine ⟨_, hok, ?_, (sameLinks_modifyHead c fun head => { head with comments := _ }).walkScript_eq
    Array.size_modify⟩
  rw [command_modifyCommand s c c _ hlt, if_pos rfl]
  rfl

theorem ruleName?_ruleComment (hname : IsRuleName name) :
    (ruleComment (.text name)).ruleName? = some name :=
  ruleName?_ruleLabel hname

theorem ruleName?_concat {h : Head Mark Value} {others : List (Comment Value)}
    (hcomments : h.comments = others ++ [ruleComment (.text name)]) (hname : IsRuleName name) :
    h.ruleName? = some name := by
  have hlabel := ruleName?_ruleComment hname
  rw [Head.ruleName?, hcomments, List.reverse_append, List.reverse_singleton, List.singleton_append,
    List.findSome?_cons_of_isSome (by rw [hlabel]; rfl), hlabel]

theorem fronted_nameRule {name : Option Value} (hok : s.nameRule c name = .ok s')
    (hfront : s.Fronted k) : s'.Fronted k := by
  obtain ⟨comments, -, rfl⟩ := nameRule_ok hok
  intro d hd
  have hname := keep_modifyCommand (s := s) (g := fun cell => cell.head.name) (f := fun cell =>
    { cell with head := { cell.head with comments } }) (fun _ => rfl) c d
  have harguments := keep_modifyCommand (s := s) (g := fun cell => cell.head.arguments) (f := fun cell =>
    { cell with head := { cell.head with comments } }) (fun _ => rfl) c d
  rw [Head.keyword?, hname, harguments]
  exact hfront d hd

/-- A script that can be written and opens with no declaration of its own is read back. -/
theorem AllWritten.readBack {limit : Value} {n : Nat} (hall : s.AllWritten) (h : s.Owned lost)
    (hdeclares : s.Declares k) (hshallow : s.Shallow k n) (hfront : s.Fronted k)
    (hdepth : Reading.Permits ⟨.default, limit⟩ n) (ho : BlankIndent o) (filename : String) :
    ∃ text u, s.text o k = .ok text ∧ Script.ofText text filename ⟨.default, limit⟩ = .ok u ∧
      u.outline id = (s.scriptTree k).settled.outline (Layout.commentTexts o) := by
  obtain ⟨names, hnames, -⟩ := hdeclares.texts
  have hprint := hall.printable_scriptTree h hdeclares (hfront.opensWithDeclaration hall h)
  obtain ⟨u, hu, houtline⟩ :=
    Reading.ofText_of_printable hprint ho filename (hdepth.mono hshallow.heightAll_le)
  exact ⟨_, u, hall.text_eq h hnames (fitIndent_blank ho), hu, houtline⟩

/-- A command of a script that was read takes every name that has one line and no closing bracket.  It
has the name then, by one comment next to the ones that named no rule, and the command at its place has
the name where the script is written and read back. -/
theorem nameRule_readBack {source filename : String} {limit : Value} {t : Script}
    (hread : Script.ofText source filename ⟨.default, limit⟩ = .ok t)
    (hc : c ∈ (ofScripts [t]).walkScript 0) (hname : IsRuleName name) (ho : BlankIndent o)
    (hcomments : o.comments = true) :
    ∃ s' text u, (ofScripts [t]).nameRule c (some (.text name)) = .ok s' ∧
      (s'.command c).head.ruleName? = some name ∧
      (s'.command c).head.comments.filter (·.ruleName?.isSome) = [ruleComment (.text name)] ∧
      (s'.command c).head.comments.filter (·.ruleName?.isNone) =
        ((ofScripts [t]).command c).head.comments.filter (·.ruleName?.isNone) ∧
      s'.text o 0 = .ok text ∧ Script.ofText text filename ⟨.default, limit⟩ = .ok u ∧
      List.Forall₂ (fun d d' => d = c → d'.head.ruleName? = some name)
        ((ofScripts [t]).walkScript 0) u.walk := by
  obtain ⟨hprint, hdepth⟩ := Reading.printable_of_ofText hread
  have howned : (ofScripts [t]).Owned [] := owned_addScript owned_empty t
  have hall : (ofScripts [t]).AllWritten :=
    allWritten_addScript t hprint.commands savable_empty.written
  have hlt : c < (ofScripts [t]).commands.size := by
    obtain ⟨d, hd, hcd⟩ := howned.mem_walkScript.1 hc
    exact (howned.grounded (howned.command_lt hd)).lt c hcd
  obtain ⟨head, -, hhead, -⟩ := hall.commands c hlt
  obtain ⟨s', hok, hlabelled, hwalk⟩ :=
    exists_nameRule (k := 0) hlt hname ⟨head.comments, by rw [hhead]; rfl⟩
  have howned' := owned_nameRule howned hok
  have hall' := allWritten_nameRule hall hok
  obtain ⟨text, u, htext, hu, houtline⟩ := hall'.readBack howned'
    (declares_nameRule hlt hok (declares_addScript owned_empty hprint))
    (shallow_nameRule hlt hok (shallow_addScript owned_empty t))
    (fronted_nameRule hok (fronted_addScript owned_empty hprint)) hdepth ho filename
  have hname' := ruleName?_ruleComment hname
  refine ⟨s', text, u, hok, ruleName?_concat hlabelled hname, ?_, ?_, htext, hu, ?_⟩
  · rw [hlabelled, List.filter_append, List.filter_filter]
    simp [hname', Option.isSome_iff_ne_none]
  · rw [hlabelled, List.filter_append, List.filter_filter]
    simp [hname']
  · rw [← hwalk]
    refine (howned'.comments_readBack hcomments houtline).imp fun d d' hlines hd => ?_
    rw [Head.ruleName?_eq, hlines, hd, hlabelled, List.map_append]
    exact lastName?_commentLines_concat_ruleLabel hname _

/-- A rule inside another one, below a comment that looks like a name and one that is its name. -/
def nested : String := "if true \x7b # rule:[old\n# rule:[x]\n/* a */ keep; \x7d"

/-- A name that looks like a label itself and ends in a blank. -/
theorem nameRule_readBack_nested :
    ∃ t s' text u, Script.ofText nested "f" .default = .ok t ∧
      (ofScripts [t]).nameRule 1 (some (.text "[rule:[ \"x\" ")) = .ok s' ∧
      s'.text .default 0 = .ok text ∧ Script.ofText text "f" .default = .ok u ∧
      (u.walk.map (·.head.ruleName?))[1]? = some (some "[rule:[ \"x\" ") := by
  obtain ⟨t, ht, hwalk⟩ : ∃ t, Script.ofText nested "f" .default = .ok t ∧
      (ofScripts [t]).walkScript 0 = [0, 1] :=
    exists_ok_of_forall (by decide +kernel) (by decide +kernel)
  have hname : IsRuleName "[rule:[ \"x\" " := by decide +kernel
  obtain ⟨s', text, u, hok, -, -, -, htext, hu, hnames⟩ :=
    nameRule_readBack (c := 1) ht (by rw [hwalk]; decide) hname blankIndent_default rfl
  refine ⟨t, s', text, u, ht, hok, htext, hu, ?_⟩
  rw [hwalk] at hnames
  obtain ⟨_, rest, -, hnames, houter⟩ := List.forall₂_cons_left_iff.1 hnames
  obtain ⟨inner, _, hname, -, rfl⟩ := List.forall₂_cons_left_iff.1 hnames
  rw [houter]
  exact congrArg some (hname rfl)

end Store

end MailFilter
