import MailFilter.Proofs.Store.Anchored
import MailFilter.Proofs.Store.Written

/-!
# Edits of sound scripts

Whatever edits follow on a script that an audit finds sound, its capabilities stay where they can be
written, in the order in which they were declared.  The links in the rest of the store may be wrong: all
that must not happen is that a command brings the top block of the script into another block.
-/

namespace MailFilter.Store

variable {s s' : Store} {k : ScriptId} {b : BlockId} {c : CommandId}

/-! ## Blocks that stay -/

/-- Every command and every script has the block that it had. -/
structure SameBlocks (s s' : Store) : Prop where
  command : ∀ c, (s'.command c).block = (s.command c).block
  script : ∀ k, (s'.script k).block = (s.script k).block

theorem SameBlocks.trans {s'' : Store} (h : SameBlocks s s') (h' : SameBlocks s' s'') :
    SameBlocks s s'' :=
  ⟨fun c => (h'.command c).trans (h.command c), fun k => (h'.script k).trans (h.script k)⟩

theorem SameLinks.sameBlocks (hsame : SameLinks s s') : SameBlocks s s' := ⟨hsame.block, hsame.top⟩

theorem sameBlocks_modifyBlock (b : BlockId) (f : BlockCell → BlockCell) :
    SameBlocks s (s.modifyBlock b f) :=
  ⟨fun _ => rfl, fun _ => rfl⟩

theorem sameBlocks_modifyParent (c : CommandId) (place : Option BlockId) :
    SameBlocks s (s.modifyCommand c ({ · with parent := place })) :=
  ⟨blockOf_modifyParent c place, fun _ => rfl⟩

theorem sameBlocks_list (b : BlockId) (i : Nat) (c : CommandId) : SameBlocks s (s.list b i c) :=
  (sameBlocks_modifyBlock b _).trans (sameBlocks_modifyParent c (some b))

theorem sameBlocks_unlist (b : BlockId) (c : CommandId) : SameBlocks s (s.unlist b c) :=
  sameBlocks_modifyBlock b _

theorem sameBlocks_insert {index limit : Value} (hok : s.insert b index c limit = .ok s') :
    SameBlocks s s' := by
  obtain ⟨i, -, rfl⟩ := insert_ok hok
  cases (s.command c).block with
  | none => exact sameBlocks_list b i c
  | some own => exact (sameBlocks_list b i c).trans (sameBlocks_modifyBlock own _)

theorem sameBlocks_declare {name : String} {added : Bool}
    (hok : s.declare k name = .ok (added, s')) : SameBlocks s s' := by
  rcases declare_ok hok with rfl | ⟨-, rfl⟩
  · exact SameLinks.refl.sameBlocks
  refine SameBlocks.trans ?_ (sameLinks_modifyCapabilities k (· ++ [.text (Text.trimmed name)])).sameBlocks
  split
  · refine ⟨fun d => ?_, fun _ => rfl⟩
    rw [command_addRequire]
    split
    · next hd =>
        rw [hd, command_of_size_le (Nat.le_refl _)]
        rfl
    · rfl
  · exact SameLinks.refl.sameBlocks

theorem sameBlocks_declared {j : ScriptId} (hall : Declared j s s') : SameBlocks s s' :=
  hall.keeps (P := SameBlocks s) (fun hok hs => hs.trans (sameBlocks_declare hok))
    SameLinks.refl.sameBlocks

theorem sameBlocks_result {e : Edit} (hok : e.result s = .ok s') : SameBlocks s s' := by
  cases e with
  | insert b index c limit => exact sameBlocks_insert (leaving_eq_ok.1 hok)
  | append b c limit => exact sameBlocks_insert (leaving_eq_ok.1 hok)
  | remove c =>
      obtain ⟨b, -, -, rfl⟩ := remove_ok (leaving_eq_ok.1 hok)
      exact (sameLinks_forget b c).sameBlocks.trans
        ((sameBlocks_unlist b c).trans (sameBlocks_modifyParent c none))
  | replace c arguments limit =>
      obtain ⟨-, rfl⟩ := replace_ok (leaving_eq_ok.1 hok)
      exact (sameLinks_modifyHead c fun head => { head with arguments }).sameBlocks
  | move c b index limit =>
      obtain ⟨source, i, -, rfl⟩ := move_ok hok
      exact (sameBlocks_unlist source c).trans (sameBlocks_list b i c)
  | declare j name =>
      obtain ⟨added, hdeclare⟩ := ok_of_declare_result hok
      exact sameBlocks_declare hdeclare
  | requireAll r j => exact sameBlocks_declared (declared_of_result hok)
  | nameRule c name =>
      obtain ⟨comments, -, rfl⟩ := nameRule_ok (leaving_eq_ok.1 hok)
      exact (sameLinks_modifyHead c fun head => { head with comments }).sameBlocks

theorem sameBlocks_leads {e : Edit} (hleads : e.Leads s s') : SameBlocks s s' := by
  cases hleads with
  | same => exact SameLinks.refl.sameBlocks
  | ok _ hok => exact sameBlocks_result hok
  | stranded => exact sameBlocks_unlist _ _
  | declared _ hall => exact sameBlocks_declared hall

theorem SameBlocks.takes_iff (hsame : SameBlocks s s') (e : Edit) : e.Takes s' k ↔ e.Takes s k := by
  cases e <;> simp only [Edit.Takes, hsame.command, hsame.script]

/-- Where links agree, the top block of a script is no command's, so no edit takes it. -/
theorem Owned.not_takes {lost : List CommandId} (h : s.Owned lost) (hk : k < s.scripts.size) (e : Edit) :
    ¬ e.Takes s k := by
  cases e with
  | insert _ _ c _ | append _ c _ => exact h.block_ne (h.top k hk) c
  | _ => exact id

theorem audit_of_owner_ne (howner : (s.block (s.script k).block).owner ≠ some (.script k)) :
    s.audit k = .error (.refused .topBlock none) := by
  unfold audit
  dsimp only
  rw [if_pos (by simpa using howner)]
  rfl

/-- An edit that takes the top block of a script leaves it with a command, which an audit finds. -/
theorem Edit.Takes.audit (h : s.Anchored k) {e : Edit} (htakes : e.Takes s k)
    (hok : e.result s = .ok s') : s'.audit k = .error (.refused .topBlock none) := by
  have hinsert : ∀ {b index c limit}, (s.command c).block = some (s.script k).block →
      s.insert b index c limit = .ok s' → s'.audit k = .error (.refused .topBlock none) := by
    intro b index c limit hblock hok
    obtain ⟨i, -, rfl⟩ := insert_ok hok
    rw [hblock]
    refine audit_of_owner_ne ?_
    have hlt : (s.script k).block < (s.list b i c).blocks.size := by
      rw [list, modifyCommand, modifyBlock, Array.size_modify]
      exact lt_of_owner h.top
    have howner := block_modifyBlock (s.list b i c) (s.script k).block (s.script k).block
      (fun cell => { cell with owner := some (.command c) }) hlt
    rw [if_pos rfl] at howner
    intro hscript
    cases (congrArg BlockCell.owner howner).symm.trans hscript
  cases e with
  | insert b index c limit => exact hinsert htakes (leaving_eq_ok.1 hok)
  | append b c limit => exact hinsert htakes (leaving_eq_ok.1 hok)
  | _ => exact htakes.elim

/-! ## Runs -/

def edited (s : Store) (es : List Edit) : Store := es.foldl (fun s e => s.after (.edit e)) s

theorem sameBlocks_edited (es : List Edit) : SameBlocks s (s.edited es) := by
  induction es generalizing s with
  | nil => exact SameLinks.refl.sameBlocks
  | cons e es ih => exact (sameBlocks_leads (leads_after e)).trans ih

theorem Anchored.edited (h : s.Anchored k) {es : List Edit} (hfree : ∀ e ∈ es, ¬ e.Takes s k) :
    (s.edited es).Anchored k := by
  induction es generalizing s with
  | nil => exact h
  | cons e es ih =>
      obtain ⟨he, hes⟩ := List.forall_mem_cons.mp hfree
      have hsame := sameBlocks_leads (leads_after (s := s) e)
      exact ih (h.leads (leads_after e) he).1 fun e' he' htakes =>
        hes e' he' ((hsame.takes_iff e').1 htakes)

/-! ## Texts -/

/-- The text of a script that has its `require` begins with the capabilities, below the comments of
that command. -/
theorem text_of_requireOf? {o : LayoutOptions} {names : List String} {text : String}
    (hc : s.requireOf? k = some c) (hnames : (s.script k).capabilities = names.map Value.text)
    (htext : s.text o k = .ok text) : ∃ rest, text = String.ofList (o.ending.apply
      (Layout.comments o 0 ((s.command c).head.comments.map (·.map Value.plain)) ++
        "require ".toList ++ Literal.writeList o.threshold names ++ ';' :: '\n' :: rest)) := by
  obtain ⟨_, -, htext⟩ := ok_of_bind htext
  obtain ⟨_, -, htext⟩ := ok_of_bind htext
  cases htext
  obtain ⟨ids, hids⟩ := List.head?_eq_some_iff.1 (requireOf?_eq_some.1 hc).1
  have hcomments : (s.tree c).settled.head.comments =
      (s.command c).head.comments.map (·.map Value.plain) := by
    rw [head_settled, tree, head_treeTo]
    rfl
  have hlineup : s.lineup k = (true, s.tree c) :: ids.map fun d => (s.requireOf? k == some d, s.tree d) := by
    rw [lineup, hids, List.map_cons, hc]
    simp
  rw [hlineup, hnames, map_plain_text, Layout.top, List.map_cons, List.flatMap_cons]
  simp only [if_true, Layout.require, hcomments, List.append_assoc, List.cons_append,
    List.nil_append]
  exact ⟨_, rfl⟩

/-! ## The main result -/

/-- What holds of a script after edits that leave its top block alone.  Its capabilities are texts that
differ in lower case.  Where there are any, they have a `require` at the front, and they are in the
first statement of the text, which there is if all that is in the store can be written.  One more edit
adds to their end, or takes them with that `require`, or leaves them, whether it fails or not. -/
theorem edited_capabilities {n : Nat} (hk : k < s.scripts.size) (haudit : s.audit k = .ok n)
    {es : List Edit} (hfree : ∀ e ∈ es, ¬ e.Takes s k) :
    (∃ names : List String, ((s.edited es).script k).capabilities = names.map Value.text ∧
      (names.map Text.lower).Nodup ∧
      (names ≠ [] → ∃ c, (s.edited es).requireOf? k = some c ∧ ∀ o : LayoutOptions,
        (∀ lost, (s.edited es).Owned lost → (s.edited es).AllWritten → Layout.fitIndent o = .ok () →
          ∃ text, (s.edited es).text o k = .ok text) ∧
        ∀ text, (s.edited es).text o k = .ok text → ∃ rest, text = String.ofList (o.ending.apply
          (Layout.comments o 0 (((s.edited es).command c).head.comments.map (·.map Value.plain)) ++
            "require ".toList ++ Literal.writeList o.threshold names ++ ';' :: '\n' :: rest)))) ∧
    ∀ e : Edit, (¬ e.Takes s k →
        (((s.edited es).after (.edit e)).script k).capabilities = ((s.edited es).script k).capabilities ∨
          e.Leaves (s.edited es) k (((s.edited es).after (.edit e)).script k).capabilities) ∧
      ∀ s' : Store, e.known (s.edited es) → e.result (s.edited es) = .ok s' →
        (¬ e.Takes s k → e.Leaves (s.edited es) k (s'.script k).capabilities) ∧
        (e.Takes s k → s'.audit k = .error (.refused .topBlock none)) := by
  have h := (anchored_of_audit hk haudit).edited hfree
  have hsame := sameBlocks_edited (s := s) es
  constructor
  · obtain ⟨names, hnames, hdistinct⟩ := h.distinct
    refine ⟨names, hnames, hdistinct, fun hsome => ?_⟩
    obtain ⟨c, hc⟩ := Option.isSome_iff_exists.1 (h.held (by simpa [hnames] using hsome))
    exact ⟨c, hc, fun o => ⟨fun _ howned hall ho => ⟨_, hall.text_eq howned hnames ho⟩,
      fun text htext => text_of_requireOf? hc hnames htext⟩⟩
  · intro e
    have htakes := hsame.takes_iff (k := k) e
    refine ⟨fun hfree => (h.leads (leads_after e) (mt htakes.1 hfree)).2, fun s' hknown hok => ?_⟩
    exact ⟨fun hfree => (h.result hknown (mt htakes.1 hfree) hok).2,
      fun htaken => Edit.Takes.audit h (htakes.2 htaken) hok⟩

/-- A script that declares a capability, another one, a command that is in no block but has the top
block of the first script for its own, and a command without a block. -/
def reclaiming : Store :=
  (run (["require \"fileinto\"; fileinto \"a\";", "keep;"].flatMap (fun source =>
      (Script.ofText source "f" .default).toOption.toList.map fun t => .script t) ++
    [.command (.simple ⟨"if", [.test (.mk "true" [] [] .nowhere)], [], .nowhere⟩ : Command),
      .command (.simple ⟨"stop", [], [], .nowhere⟩ : Command)])).modifyCommand 3
    ({ · with block := some 0 })

theorem audit_reclaiming : reclaiming.audit 0 = .ok 2 := eq_ok_of_toOption (by decide +kernel)

theorem edited_capabilities_reclaiming : ∃ (names : List String) (c : CommandId),
    ((reclaiming.edited [.append 1 4 (.int 64), .declare 0 "copy"]).script 0).capabilities =
        names.map Value.text ∧ names.length = 2 ∧
      (reclaiming.edited [.append 1 4 (.int 64), .declare 0 "copy"]).requireOf? 0 = some c := by
  have hlength : ((reclaiming.edited [.append 1 4 (.int 64), .declare 0 "copy"]).script 0
      ).capabilities.length = 2 := by decide +kernel
  have hfree : ∀ e ∈ [Edit.append 1 4 (.int 64), .declare 0 "copy"], ¬ e.Takes reclaiming 0 := by
    refine List.forall_mem_cons.mpr ⟨?_, List.forall_mem_singleton.mpr id⟩
    show (reclaiming.command 4).block ≠ some (reclaiming.script 0).block
    decide +kernel
  obtain ⟨⟨names, hnames, -, hheld⟩, -⟩ :=
    edited_capabilities (by decide +kernel) audit_reclaiming hfree
  rw [hnames, List.length_map] at hlength
  obtain ⟨c, hc, -⟩ := hheld fun hnil => by
    rw [hnil] at hlength
    cases hlength
  exact ⟨names, c, hnames, hlength, hc⟩

/-- Once the command with the top block of the first script is in the second one, something can be put
before the `require`, and the capabilities are written no more. -/
theorem edited_reclaiming : reclaiming.audit 0 = .ok 2 ∧ reclaiming.audit 1 = .ok 1 ∧
    ∃ s', reclaiming.edited [.append 1 3 (.int 64), .insert 0 (.int 0) 4 (.int 64)] = s' ∧
      (s'.script 0).capabilities ≠ [] ∧ s'.requireOf? 0 = none ∧
      s'.text .default 0 = .ok "stop;\nrequire;\nfileinto \"a\";\n" := by
  refine ⟨audit_reclaiming, eq_ok_of_toOption (by decide +kernel), _, rfl, fun hnil => ?_,
    by decide +kernel, eq_ok_of_toOption (by decide +kernel)⟩
  have hlength : ((reclaiming.edited [.append 1 3 (.int 64), .insert 0 (.int 0) 4 (.int 64)]).script 0
      ).capabilities.length = 1 := by decide +kernel
  rw [hnil] at hlength
  cases hlength

end MailFilter.Store
