import GoSyntax.Proofs.TreeTally

/-!
# How spellings end

The last token of an expression is one at which a line break ends a statement, whatever the expression: a name, a literal or a closing
bracket. So an expression never ends just where a source ends, because there would be a `;` behind it. A declaration of a file ends with
its `;`.
-/

namespace GoSyntax

namespace Layout

/-- Each spelling has a last token, which satisfies the condition. -/
def EndsIn (φ : TokenKind → Prop) (l : Layout) : Prop := ∀ w ∈ l.words, ∃ kind, w.getLast? = some kind ∧ φ kind

variable {φ : TokenKind → Prop} {a b : Layout}

theorem endsIn_impossible : impossible.EndsIn φ := fun _ hw => hw.elim

theorem endsIn_token {kind : TokenKind} (h : φ kind) : (token kind).EndsIn φ := by
  rintro _ rfl
  exact ⟨kind, rfl, h⟩

theorem endsIn_either (ha : a.EndsIn φ) (hb : b.EndsIn φ) : (either a b).EndsIn φ := fun w hw => hw.elim (ha w) (hb w)

/-- What stands in front does not matter. -/
theorem endsIn_append (a : Layout) (h : b.EndsIn φ) : (a ++ b).EndsIn φ := by
  rintro _ ⟨u, -, v, hv, rfl⟩
  obtain ⟨kind, hlast, hkind⟩ := h v hv
  refine ⟨kind, ?_, hkind⟩
  change (u ++ v).getLast? = some kind
  rw [List.getLast?_append, hlast, Option.some_or]

/-- What stands behind does not matter if it is empty. -/
theorem endsIn_append_or (ha : a.EndsIn φ) (hb : ∀ w ∈ b.words, w = [] ∨ ∃ kind, w.getLast? = some kind ∧ φ kind) : (a ++ b).EndsIn φ := by
  rintro _ ⟨u, hu, v, hv, rfl⟩
  change ∃ kind, (u ++ v).getLast? = some kind ∧ φ kind
  rcases hb v hv with rfl | ⟨kind, hlast, hkind⟩
  · rw [List.append_nil]
    exact ha u hu
  · refine ⟨kind, ?_, hkind⟩
    rw [List.getLast?_append, hlast, Option.some_or]

theorem endsIn_append_concat {ls : List Layout} (ha : a.EndsIn φ) (hls : ∀ l ∈ ls, l.EndsIn φ) : (a ++ concat ls).EndsIn φ := by
  refine endsIn_append_or ha ?_
  induction ls with
  | nil =>
    rintro _ rfl
    exact .inl rfl
  | cons l ls ih =>
    intro w hw
    have hrest := ih fun l' hl' => hls l' (List.mem_cons_of_mem l hl')
    exact .inr (endsIn_append_or (hls l List.mem_cons_self) hrest w hw)

theorem endsIn_inParens (l : Layout) (h : φ (.punctuation .rParen)) : (inParens l).EndsIn φ := endsIn_append _ (endsIn_token h)

theorem endsIn_inBrackets (l : Layout) (h : φ (.punctuation .rBracket)) : (inBrackets l).EndsIn φ := endsIn_append _ (endsIn_token h)

theorem endsIn_inBraces (l : Layout) (h : φ (.punctuation .rBrace)) : (inBraces l).EndsIn φ := endsIn_append _ (endsIn_token h)

end Layout

open Layout

/-- A line break behind this kind of token ends a statement. -/
abbrev TokenKind.Arms (kind : TokenKind) : Prop := kind.endsStatement = true

theorem Block.endsIn_layout (b : Block) : b.layout.EndsIn TokenKind.Arms := by
  cases b
  exact endsIn_inBraces _ rfl

mutual

/-- At the end of an expression a line break ends a statement. -/
theorem Expr.endsIn_layout : (e : Expr) → e.layout.EndsIn TokenKind.Arms
  | .bad _ => endsIn_impossible
  | .ident _ _ | .literal _ _ => endsIn_token rfl
  | .composite _ _ _ => endsIn_append _ (endsIn_inBraces _ rfl)
  | .function _ _ body => endsIn_append _ body.endsIn_layout
  | .paren _ _ => endsIn_inParens _ rfl
  | .selector _ _ _ => endsIn_append _ (endsIn_token rfl)
  | .assertion _ _ _ => endsIn_append _ (endsIn_inParens _ rfl)
  | .index _ _ _ => endsIn_append _ (endsIn_inBrackets _ rfl)
  | .slice _ _ _ _ _ _ => endsIn_append _ (endsIn_inBrackets _ rfl)
  | .call _ _ _ _ => endsIn_append _ (endsIn_inParens _ rfl)
  | .star _ operand | .unary _ _ operand => endsIn_append _ operand.endsIn_layout
  | .binary _ _ _ right => endsIn_append _ right.endsIn_layout
  | .keyValue _ _ value => endsIn_append _ value.endsIn_layout
  | .arrayType _ _ elem => endsIn_append _ elem.endsIn_layout
  | .structType _ _ => endsIn_append _ (endsIn_inBraces _ rfl)
  | .functionType _ sig => endsIn_append _ sig.endsIn_layout
  | .interfaceType _ _ => endsIn_append _ (endsIn_inBraces _ rfl)
  | .mapType _ _ value => endsIn_append _ value.endsIn_layout
  | .channelType _ .both elem => endsIn_append _ elem.endsIn_layout
  | .channelType _ .send elem => endsIn_append _ elem.endsIn_layout
  | .channelType _ .receive elem => endsIn_append _ elem.endsIn_layout
  | .variadicType _ elem => endsIn_append _ elem.endsIn_layout

theorem Signature.endsIn_layout : (sig : Signature) → sig.layout.EndsIn TokenKind.Arms
  | ⟨_, []⟩ =>
    have hparens : (inParens empty).EndsIn TokenKind.Arms := endsIn_inParens _ rfl
    endsIn_append_or (endsIn_inParens _ rfl) fun w hw => hw.elim (fun hw => .inr (hparens w hw)) .inl
  | ⟨_, [⟨_, [], type, none⟩]⟩ =>
    endsIn_append _ (endsIn_either (endsIn_inParens _ rfl) (endsIn_append_or (endsIn_append _ type.endsIn_layout) fun _ hw => .inl hw))
  | ⟨_, [⟨_, [], _, some _⟩]⟩ | ⟨_, [⟨_, _ :: _, _, _⟩]⟩ => endsIn_append _ (endsIn_inParens _ rfl)
  | ⟨_, _ :: _ :: _⟩ => endsIn_append _ (endsIn_inParens _ rfl)

end

/-- A file ends with a `;`. -/
theorem SourceFile.endsIn_layout (f : SourceFile) : f.layout.EndsIn (· = Punctuation.semicolon) := by
  refine endsIn_append_concat (endsIn_append _ (endsIn_token rfl)) fun l hl => ?_
  obtain ⟨d, -, rfl⟩ := List.mem_map.1 hl
  cases d with
  | bad _ => exact endsIn_impossible
  | group _ _ | func _ _ => exact endsIn_append _ (endsIn_token rfl)

end GoSyntax
