import FusedKernel.Proofs.Access.Fragments
import FusedKernel.Proofs.Expression.Composition
import FusedKernel.Proofs.Graph.Replay

/-!
# What a text takes from its format

The walk that writes an expression does not depend on the format, and neither does what the writer
does at each of its events.  So there is one template for all formats, or one error.  A format only
fills in its index texts and its lane, the lane once for each access to a stored entry.

* `Expression.readAt`, `Expression.reads` — the symbol that is read at an event, and all that are
  read, in order.
* `Expression.fixedAt` — what is written where no symbol is read.
* `Expression.template` — the fragments of a text.

Principal results: `hook_writer` — what the writer does at an event; `text_eq_fillAll` — every text
and every error comes from the template; `text_uniform` — one template, with a place for the lane
for each access to a stored entry.
-/

set_option autoImplicit false

namespace FusedKernel

/-- The symbol of a side is that of a stored vector or matrix. -/
def SymbolTable.isIndexedAt (symbols : SymbolTable) (key : SymbolKey) : Bool :=
  (symbols.get? key.1 key.2).any Symbol.isIndexed

namespace Expression

/-- The side whose symbol the writer reads at an event. -/
def readAt (g : ExprGraph) (event : Event) : Option SymbolKey :=
  match g.node? event.node with
  | none => none
  | some node =>
    match event with
    | .opened _ | .closed _ => none
    | .visited .self id =>
      if node.operation.phrasing = .kernelResult then some (id, .self) else none
    | .visited side id => some (id, side)

/-- The sides whose symbols are read for the text of `root`, in order and each as often as it is
read. -/
def reads (g : ExprGraph) (root : NodeId) : List SymbolKey :=
  (Walk.events .fused g root).filterMap (readAt g)

/-- What the writer appends at an event without reading a symbol. -/
def fixedAt (g : ExprGraph) (event : Event) : Except GenerationError String :=
  match g.node? event.node with
  | none => .ok ""
  | some node =>
    match event with
    | .opened _ => opening node
    | .visited .self _ =>
      match node.operation.phrasing with
      | .infixed => node.operation.operator.token
      | .call => .ok (if node.right.isSome then "," else "")
      | .kernelResult => .ok ""
    | .visited .left _ | .visited .right _ => .ok ""
    | .closed _ => .ok ")"

/-- The fragments of what the writer appends at an event. -/
def fragmentsAt (g : ExprGraph) (symbols : SymbolTable) (event : Event) :
    Except GenerationError (List Fragment) :=
  match readAt g event with
  | some (id, side) => (symbols.lookup id side).map Symbol.fragments
  | none => (fixedAt g event).map fun text => [.literal text]

/-- The fragments of what the writer appends at some events in a row. -/
def fragmentsAll (g : ExprGraph) (symbols : SymbolTable) (events : List Event) :
    Except GenerationError (List Fragment) :=
  (events.mapM (fragmentsAt g symbols)).map List.flatten

/-- The fragments of the text of `root`, for all formats. -/
def template (g : ExprGraph) (symbols : SymbolTable) (root : NodeId) :
    Except GenerationError (List Fragment) := do
  let fragments ← fragmentsAll g symbols (Walk.events .fused g root)
  Walk.verdict .fused g root
  return fragments

variable {g : ExprGraph} {symbols : SymbolTable}

/-! ## The writer at an event -/

/-- **What the writer does at an event.**  It reads one symbol and appends the access, or appends a
text that depends on the graph alone. -/
theorem hook_writer (symbols : SymbolTable) (format : AccessFormat) (event : Event) :
    (writer symbols format).hook g event = emitResult
      (match readAt g event with
      | some (id, side) => access symbols format id side
      | none => fixedAt g event) := by
  unfold Visitor.hook readAt fixedAt
  cases g.node? event.node with
  | none =>
    funext out
    simp [emitResult, emit, pure, EStateM.pure]
  | some node =>
    rcases event with id | ⟨_ | _ | _, id⟩ | id
    · rfl
    · rfl
    · show emitResult (middle symbols format id node) = _
      unfold middle
      cases hphrasing : node.operation.phrasing <;> simp [hphrasing]
    · rfl
    · rfl

theorem appends_hook (symbols : SymbolTable) (format : AccessFormat) (event : Event) :
    Appends ((writer symbols format).hook g event)
      ((fragmentsAt g symbols event).map (Fragment.fillAll format)) := by
  have hpiece : (fragmentsAt g symbols event).map (Fragment.fillAll format) =
      match readAt g event with
      | some (id, side) => access symbols format id side
      | none => fixedAt g event := by
    unfold fragmentsAt
    cases readAt g event with
    | none =>
      cases fixedAt g event with
      | error e => rfl
      | ok text => exact congrArg Except.ok (Fragment.fillAll_literal format text)
    | some key =>
      show ((symbols.lookup key.1 key.2).map Symbol.fragments).map (Fragment.fillAll format) =
        access symbols format key.1 key.2
      unfold access
      cases symbols.lookup key.1 key.2 with
      | error e => rfl
      | ok symbol => exact congrArg Except.ok (symbol.render_eq_fillAll format).symm
  rw [hook_writer, hpiece]
  exact appends_emitResult _

/-! ## The writer at the events of a walk -/

theorem fragmentsAll_cons (event : Event) (events : List Event) :
    fragmentsAll g symbols (event :: events) = (do
      let fragments ← fragmentsAt g symbols event
      let more ← fragmentsAll g symbols events
      return fragments ++ more) := by
  unfold fragmentsAll
  rw [List.mapM_cons]
  cases fragmentsAt g symbols event with
  | error e => rfl
  | ok fragments =>
    cases events.mapM (fragmentsAt g symbols) with
    | error e => rfl
    | ok more => rfl

/-- Filling goes piece by piece. -/
theorem map_fillAll_append (format : AccessFormat)
    (first more : Except GenerationError (List Fragment)) :
    (do let fragments ← first; let fragments' ← more; return fragments ++ fragments' :
      Except GenerationError (List Fragment)).map (Fragment.fillAll format) =
      join (first.map (Fragment.fillAll format)) (more.map (Fragment.fillAll format)) := by
  rcases first with e | fragments
  · rfl
  · rcases more with e | fragments'
    · rfl
    · exact congrArg Except.ok (Fragment.fillAll_append format fragments fragments')

theorem appends_replay (symbols : SymbolTable) (format : AccessFormat) (events : List Event) :
    Appends ((writer symbols format).replay g events)
      ((fragmentsAll g symbols events).map (Fragment.fillAll format)) := by
  induction events with
  | nil => exact appends_pure
  | cons event events ih =>
    rw [fragmentsAll_cons, map_fillAll_append]
    exact (appends_hook symbols format event).seq ih

theorem appends_conclude (verdict : Except GenerationError Unit) :
    Appends (Walk.conclude verdict) (verdict.map fun _ => "") := by
  cases verdict with
  | ok => exact appends_pure
  | error e =>
    intro out
    exact ⟨out, rfl⟩

/-- **Every text and every error comes from the template.** -/
theorem text_eq_fillAll (g : ExprGraph) (symbols : SymbolTable) (format : AccessFormat)
    (root : NodeId) :
    text ⟨g, symbols, format⟩ root =
      (template g symbols root).map (Fragment.fillAll format) := by
  have hwrite : write ⟨g, symbols, format⟩ root = (do
      (writer symbols format).replay g (Walk.events .fused g root)
      Walk.conclude (Walk.verdict .fused g root)) := by
    rw [Walk.events_eq, Walk.verdict_eq]
    exact Walk.descend_eq_replay _ _
  have hjoin : (template g symbols root).map (Fragment.fillAll format) =
      join ((fragmentsAll g symbols (Walk.events .fused g root)).map (Fragment.fillAll format))
        ((Walk.verdict .fused g root).map fun _ => "") := by
    unfold template
    cases fragmentsAll g symbols (Walk.events .fused g root) with
    | error e => rfl
    | ok fragments =>
      cases Walk.verdict .fused g root with
      | error e => rfl
      | ok => exact congrArg Except.ok String.append_empty.symm
  rw [hjoin]
  refine text_eq_of_appends ?_
  rw [hwrite]
  exact (appends_replay symbols format _).seq (appends_conclude _)

/-! ## Places for the lane -/

theorem exists_of_bind {α β : Type} {first : Except GenerationError α}
    {next : α → Except GenerationError β} {b : β} (h : first >>= next = .ok b) :
    ∃ a, first = .ok a ∧ next a = .ok b := by
  cases first with
  | error e => cases h
  | ok a => exact ⟨a, rfl, h⟩

theorem exists_of_map {α β : Type} {first : Except GenerationError α} {f : α → β} {b : β}
    (h : first.map f = .ok b) : ∃ a, first = .ok a ∧ f a = b := by
  cases first with
  | error e => cases h
  | ok a => exact ⟨a, rfl, Except.ok.inj h⟩

theorem count_lane_fragmentsAt {event : Event} {fragments : List Fragment}
    (h : fragmentsAt g symbols event = .ok fragments) :
    fragments.count .lane = (readAt g event).toList.countP symbols.isIndexedAt := by
  unfold fragmentsAt at h
  cases hread : readAt g event with
  | none =>
    rw [hread] at h
    obtain ⟨text, _, rfl⟩ := exists_of_map h
    rfl
  | some key =>
    rw [hread] at h
    obtain ⟨symbol, hlookup, rfl⟩ := exists_of_map h
    have hsymbol : symbols.get? key.1 key.2 = some symbol := SymbolTable.lookup_eq_ok_iff.1 hlookup
    rw [symbol.count_lane_fragments]
    simp [SymbolTable.isIndexedAt, hsymbol, List.countP_cons]

/-- There is a place for the lane for each entry of a stored object that is read. -/
theorem count_lane_fragmentsAll {events : List Event} {fragments : List Fragment}
    (h : fragmentsAll g symbols events = .ok fragments) :
    fragments.count .lane = (events.filterMap (readAt g)).countP symbols.isIndexedAt := by
  induction events generalizing fragments with
  | nil =>
    cases h
    rfl
  | cons event events ih =>
    rw [fragmentsAll_cons] at h
    obtain ⟨first, hfirst, h⟩ := exists_of_bind h
    obtain ⟨more, hmore, h⟩ := exists_of_bind h
    cases h
    have hsplit : (event :: events).filterMap (readAt g) =
        (readAt g event).toList ++ events.filterMap (readAt g) := by
      rw [List.filterMap_cons]
      cases readAt g event <;> rfl
    rw [List.count_append, count_lane_fragmentsAt hfirst, ih hmore, hsplit, List.countP_append]

theorem count_lane_template {root : NodeId} {fragments : List Fragment}
    (h : template g symbols root = .ok fragments) :
    fragments.count .lane = (reads g root).countP symbols.isIndexedAt := by
  obtain ⟨fragments', hall, h⟩ := exists_of_bind h
  obtain ⟨_, _, h⟩ := exists_of_bind h
  cases h
  exact count_lane_fragmentsAll hall

/-- Texts for two lanes are the same only where there is no place for a lane. -/
theorem fillAll_eq_iff {fragments : List Fragment} (first second : String)
    {lane lane' : Option (Fin laneCount)} (hlanes : lane ≠ lane') :
    Fragment.fillAll ⟨first, second, lane⟩ fragments =
      Fragment.fillAll ⟨first, second, lane'⟩ fragments ↔ fragments.count .lane = 0 := by
  have hfill : ∀ fragment, fragment ≠ .lane →
      Fragment.fill ⟨first, second, lane⟩ fragment =
        Fragment.fill ⟨first, second, lane'⟩ fragment := by
    intro fragment hne
    cases fragment with
    | literal text => rfl
    | first => rfl
    | second => rfl
    | lane => exact absurd rfl hne
  rw [List.count_eq_zero]
  constructor
  · intro htexts hmem
    have hsuffix := Fragment.laneSuffix_eq_of_fillAll_eq hfill hmem htexts
    exact hlanes (AccessFormat.lane_eq_of_laneSuffix_eq hsuffix)
  · intro hnone
    refine Fragment.fillAll_congr fun fragment hmem => hfill fragment ?_
    rintro rfl
    exact hnone hmem

/-- **One template for all formats.**  Generating an expression ends with the same error whatever
the format is, or every format fills in the same fragments.  Among these there is a place for the
lane for each time the symbol of a stored vector or matrix is read, and lanes make no difference
exactly if none is. -/
theorem text_uniform (g : ExprGraph) (symbols : SymbolTable) (root : NodeId) :
    (∃ e, ∀ format, text ⟨g, symbols, format⟩ root = .error e) ∨
      ∃ fragments : List Fragment,
        (∀ format, text ⟨g, symbols, format⟩ root = .ok (Fragment.fillAll format fragments)) ∧
        fragments.count .lane = (reads g root).countP symbols.isIndexedAt ∧
        ∀ (first second : String) (lane lane' : Option (Fin laneCount)), lane ≠ lane' →
          (text ⟨g, symbols, ⟨first, second, lane⟩⟩ root =
            text ⟨g, symbols, ⟨first, second, lane'⟩⟩ root ↔
              ∀ key ∈ reads g root, symbols.isIndexedAt key = false) := by
  cases htemplate : template g symbols root with
  | error e =>
    refine Or.inl ⟨e, fun format => ?_⟩
    rw [text_eq_fillAll, htemplate]
    rfl
  | ok fragments =>
    have htext : ∀ format, text ⟨g, symbols, format⟩ root =
        .ok (Fragment.fillAll format fragments) := by
      intro format
      rw [text_eq_fillAll, htemplate]
      rfl
    have hcount := count_lane_template htemplate
    refine Or.inr ⟨fragments, htext, hcount, ?_⟩
    intro first second lane lane' hlanes
    rw [htext, htext, Except.ok.injEq, fillAll_eq_iff first second hlanes, hcount,
      List.countP_eq_zero]
    simp only [Bool.not_eq_true]

/-- A product of an entry of a vector and one of a matrix, added to itself. -/
def doubledProduct : ExprGraph :=
  ⟨#[⟨.canonical .mul, Walk.anyLeaf, some Walk.anyLeaf⟩,
    ⟨.canonical .add, .node 0, some (.node 0)⟩]⟩

def doubledProductSymbols : SymbolTable :=
  .ofList [((0, .left), .vector "x"), ((0, .right), .matrix "A" "n" .rowMajor)]

/-- The first lane whose digit is a letter. -/
def laneTen : Fin laneCount := ⟨10, by decide⟩

/-- Each of the two entries is read twice, and shows the lane each time. -/
theorem doubledProduct_uniform :
    text ⟨doubledProduct, doubledProductSymbols, ⟨"i", "j", some laneTen⟩⟩ 1 =
      .ok "((x[i].sa*A[i*n+j].sa)+(x[i].sa*A[i*n+j].sa))" ∧
    ∃ fragments : List Fragment,
      (∀ format, text ⟨doubledProduct, doubledProductSymbols, format⟩ 1 =
        .ok (Fragment.fillAll format fragments)) ∧
      fragments.count .lane = 4 ∧ (none : Option (Fin laneCount)) ≠ some laneTen ∧
      text ⟨doubledProduct, doubledProductSymbols, ⟨"i", "j", none⟩⟩ 1 ≠
        text ⟨doubledProduct, doubledProductSymbols, ⟨"i", "j", some laneTen⟩⟩ 1 := by
  have htext : text ⟨doubledProduct, doubledProductSymbols, ⟨"i", "j", some laneTen⟩⟩ 1 =
      .ok "((x[i].sa*A[i*n+j].sa)+(x[i].sa*A[i*n+j].sa))" := by rfl
  refine ⟨htext, ?_⟩
  rcases text_uniform doubledProduct doubledProductSymbols 1 with
    ⟨e, herror⟩ | ⟨fragments, hfill, hcount, hlanes⟩
  · rw [herror] at htext
    cases htext
  · have hlane : (none : Option (Fin laneCount)) ≠ some laneTen := by decide
    refine ⟨fragments, hfill, hcount.trans (by rfl), hlane, ?_⟩
    intro heq
    have hnone := (hlanes "i" "j" none (some laneTen) hlane).1 heq
    have hread : (0, .left) ∈ reads doubledProduct 1 := by
      have hreads : reads doubledProduct 1 =
          [(0, .left), (0, .right), (0, .left), (0, .right)] := by rfl
      rw [hreads]
      decide
    cases hnone _ hread

end Expression

end FusedKernel
