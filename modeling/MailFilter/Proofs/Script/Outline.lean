import Mathlib.Data.List.Forall2
import MailFilter.Script.Alike

/-!
# Outlines

The outline of a tree is the tree without its places and without the forms of its strings.  Its
comments go through a function on lists of texts, so that one notion serves for trees whose comments
are the same and for trees whose comments were laid out anew.
-/

namespace MailFilter

variable {α β : Type}

mutual

/-- An argument without its place and the form of its strings. -/
def Argument.outline : Argument α → Argument Unit
  | .string value _ _ => .string value .quoted ()
  | .strings values _ => .strings values ()
  | .number value unit _ => .number value unit ()
  | .tag name _ => .tag name ()
  | .test t => .test t.outline
  | .foreign shown => .foreign shown

/-- A test without its places and the forms of its strings. -/
def Test.outline : Test α → Test Unit
  | .mk name arguments tests _ =>
    .mk name (Argument.outlineAll arguments) (Argument.outlineAll tests) ()

def Argument.outlineAll : List (Argument α) → List (Argument Unit)
  | [] => []
  | a :: as => a.outline :: Argument.outlineAll as

end

/-- The texts of comments after a function, as comments without places. -/
def Comment.outlineAll (f : List String → List String) (cs : List Comment) : List Comment :=
  (f (cs.map (·.text))).map (⟨·, .nowhere⟩)

def Head.outline (f : List String → List String) (h : Head α) : Head Unit :=
  ⟨h.name, Argument.outlineAll h.arguments, Comment.outlineAll f h.comments, ()⟩

mutual

def Command.outline (f : List String → List String) : Command α → Command Unit
  | .simple head => .simple (head.outline f)
  | .control head commands trailing _ =>
    .control (head.outline f) (Command.outlineAll f commands) (Comment.outlineAll f trailing)
      .nowhere

def Command.outlineAll (f : List String → List String) : List (Command α) → List (Command Unit)
  | [] => []
  | c :: cs => c.outline f :: Command.outlineAll f cs

end

/-- A script without its places and the name of its file. -/
def Script.outline (f : List String → List String) (s : Script α) : Script Unit :=
  ⟨⟨Command.outlineAll f s.commands, Comment.outlineAll f s.block.trailing, .nowhere⟩,
    s.capabilities, "", .nowhere⟩

/-! ## Lists -/

theorem Argument.outlineAll_eq_map (as : List (Argument α)) :
    Argument.outlineAll as = as.map Argument.outline := by
  induction as with
  | nil => rfl
  | cons a as ih => rw [Argument.outlineAll, ih, List.map_cons]

theorem Command.outlineAll_eq_map (f : List String → List String) (cs : List (Command α)) :
    Command.outlineAll f cs = cs.map (Command.outline f) := by
  induction cs with
  | nil => rfl
  | cons c cs ih => rw [Command.outlineAll, ih, List.map_cons]

theorem Argument.outlineAll_append (as bs : List (Argument α)) :
    Argument.outlineAll (as ++ bs) = Argument.outlineAll as ++ Argument.outlineAll bs := by
  simp only [Argument.outlineAll_eq_map, List.map_append]

/-! ## Commands one by one -/

theorem Command.head_outline (f : List String → List String) (c : Command α) :
    (c.outline f).head = c.head.outline f := by
  cases c <;> rfl

mutual

theorem Command.walk_outline (f : List String → List String) :
    ∀ c : Command α, (c.outline f).walk = c.walk.map (Command.outline f)
  | .simple _ => rfl
  | .control _ cs _ _ => by
      rw [Command.walk, List.map_cons, ← Command.walkAll_outlineAll f cs]
      rfl

theorem Command.walkAll_outlineAll (f : List String → List String) : ∀ cs : List (Command α),
    Command.walkAll (Command.outlineAll f cs) = (Command.walkAll cs).map (Command.outline f)
  | [] => rfl
  | c :: cs => by
      rw [Command.outlineAll, Command.walkAll, Command.walkAll, List.map_append,
        Command.walk_outline f c, Command.walkAll_outlineAll f cs]

end

theorem Script.forall₂_walk_of_outline {f g : List String → List String} {s : Script α}
    {t : Script β} (h : s.outline f = t.outline g) :
    List.Forall₂ (fun c d => c.outline f = d.outline g) s.walk t.walk := by
  have hwalk := congrArg Script.walk h
  simp only [Script.walk, Script.outline, Script.commands, Command.walkAll_outlineAll] at hwalk
  rwa [← List.forall₂_eq_eq_eq, List.forall₂_map_left_iff, List.forall₂_map_right_iff] at hwalk

/-! ## Outlines of outlines -/

mutual

theorem Argument.outline_outline : ∀ a : Argument α, a.outline.outline = a.outline
  | .string .. | .strings .. | .number .. | .tag .. | .foreign .. => by simp [Argument.outline]
  | .test t => by rw [Argument.outline, Argument.outline, Test.outline_outline t]

theorem Test.outline_outline : ∀ t : Test α, t.outline.outline = t.outline
  | .mk name arguments tests mark => by
      rw [Test.outline, Test.outline, Argument.outlineAll_outlineAll arguments,
        Argument.outlineAll_outlineAll tests]

theorem Argument.outlineAll_outlineAll :
    ∀ as : List (Argument α), Argument.outlineAll (Argument.outlineAll as) = Argument.outlineAll as
  | [] => rfl
  | a :: as => by
      rw [Argument.outlineAll, Argument.outlineAll, Argument.outline_outline a,
        Argument.outlineAll_outlineAll as]

end

theorem Comment.outlineAll_outlineAll (f g : List String → List String) (cs : List Comment) :
    Comment.outlineAll g (Comment.outlineAll f cs) = Comment.outlineAll (g ∘ f) cs := by
  rw [Comment.outlineAll, Comment.outlineAll, List.map_map]
  exact congrArg (fun texts => (g texts).map _) (List.map_id _)

theorem Head.outline_outline (f g : List String → List String) (h : Head α) :
    (h.outline f).outline g = h.outline (g ∘ f) := by
  rw [Head.outline, Head.outline, Head.outline, Argument.outlineAll_outlineAll,
    Comment.outlineAll_outlineAll]

mutual

theorem Command.outline_outline (f g : List String → List String) :
    ∀ c : Command α, (c.outline f).outline g = c.outline (g ∘ f)
  | .simple h => by rw [Command.outline, Command.outline, Command.outline, Head.outline_outline]
  | .control h cs trailing opening => by
      rw [Command.outline, Command.outline, Command.outline, Head.outline_outline,
        Command.outlineAll_outlineAll f g cs, Comment.outlineAll_outlineAll]

theorem Command.outlineAll_outlineAll (f g : List String → List String) :
    ∀ cs : List (Command α),
      Command.outlineAll g (Command.outlineAll f cs) = Command.outlineAll (g ∘ f) cs
  | [] => rfl
  | c :: cs => by
      rw [Command.outlineAll, Command.outlineAll, Command.outlineAll, Command.outline_outline f g c,
        Command.outlineAll_outlineAll f g cs]

end

theorem Script.outline_outline (f g : List String → List String) (s : Script α) :
    (s.outline f).outline g = s.outline (g ∘ f) := by
  simp only [Script.outline, Script.commands, Command.outlineAll_outlineAll,
    Comment.outlineAll_outlineAll]

/-! ## Trees with equal outlines are alike -/

mutual

theorem Argument.alike_of_outline : ∀ (a : Argument α) (b : Argument β), a.outline = b.outline →
    a.alike b = true
  | .string .., b, h | .strings .., b, h | .number .., b, h | .tag .., b, h | .foreign .., b, h => by
      cases b <;> simp_all [Argument.outline, Argument.alike]
  | .test t, .test u, h => by
      simp only [Argument.outline, Argument.test.injEq] at h
      rw [Argument.alike, Test.alike_of_outline t u h]
  | .test _, .string .., h | .test _, .strings .., h | .test _, .number .., h | .test _, .tag .., h
  | .test _, .foreign .., h => by simp [Argument.outline] at h

theorem Test.alike_of_outline : ∀ (t : Test α) (u : Test β), t.outline = u.outline →
    Test.alike t u = true
  | .mk n as ts _, .mk m bs us _, h => by
      simp only [Test.outline, Test.mk.injEq, and_true] at h
      rw [Test.alike, Argument.allAlike_of_outline as bs h.2.1,
        Argument.allAlike_of_outline ts us h.2.2]
      simp [h.1]

theorem Argument.allAlike_of_outline : ∀ (as : List (Argument α)) (bs : List (Argument β)),
    Argument.outlineAll as = Argument.outlineAll bs → Argument.allAlike as bs = true
  | [], [], _ => rfl
  | a :: as, b :: bs, h => by
      simp only [Argument.outlineAll, List.cons.injEq] at h
      rw [Argument.allAlike, Argument.alike_of_outline a b h.1,
        Argument.allAlike_of_outline as bs h.2]
      rfl
  | [], _ :: _, h | _ :: _, [], h => by simp [Argument.outlineAll] at h

end

theorem Head.alike_of_outline {f g : List String → List String} {a : Head α} {b : Head β}
    (h : a.outline f = b.outline g) : a.alike b = true := by
  simp only [Head.outline, Head.mk.injEq] at h
  rw [Head.alike, Argument.allAlike_of_outline _ _ h.2.1]
  simp [h.1]

mutual

theorem Command.alike_of_outline (f g : List String → List String) :
    ∀ (c : Command α) (d : Command β), c.outline f = d.outline g → Command.alike c d = true
  | .simple a, .simple b, h => by
      simp only [Command.outline, Command.simple.injEq] at h
      rw [Command.alike, Head.alike_of_outline h]
  | .control a cs _ _, .control b ds _ _, h => by
      simp only [Command.outline, Command.control.injEq] at h
      rw [Command.alike, Head.alike_of_outline h.1, Command.allAlike_of_outline f g cs ds h.2.1]
      rfl
  | .simple _, .control .., h | .control .., .simple _, h => by simp [Command.outline] at h

theorem Command.allAlike_of_outline (f g : List String → List String) :
    ∀ (cs : List (Command α)) (ds : List (Command β)),
      Command.outlineAll f cs = Command.outlineAll g ds → Command.allAlike cs ds = true
  | [], [], _ => rfl
  | c :: cs, d :: ds, h => by
      simp only [Command.outlineAll, List.cons.injEq] at h
      rw [Command.allAlike, Command.alike_of_outline f g c d h.1,
        Command.allAlike_of_outline f g cs ds h.2]
      rfl
  | [], _ :: _, h | _ :: _, [], h => by simp [Command.outlineAll] at h

end

theorem Script.alike_of_outline {f g : List String → List String} {s : Script α} {t : Script β}
    (h : s.outline f = t.outline g) : s.alike t = true := by
  simp only [Script.outline, Script.mk.injEq, Block.mk.injEq] at h
  rw [Script.alike, Command.allAlike_of_outline f g _ _ h.1.1]
  simp [h.2.1]

end MailFilter
