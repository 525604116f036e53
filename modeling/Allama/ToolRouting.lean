import Allama.ToolNames

/-! Which tools keep their name on the way to the model, to the approval and to the execution. -/
namespace Allama
namespace ToolNames
open LikePatterns

/-- A tool of the registry, or of a server of the user. -/
inductive Tool
  | action (name : Text)
  | userTool (server tool : Text)
deriving DecidableEq

/-- The name under which the tool builder allows the tool. -/
def Tool.name : Tool → Text
  | .action name => name
  | .userTool server tool => userToolName server tool

/-- An action that every consumer takes for itself. -/
structure ActionFaithful (a : Text) : Prop where
  routed : (proxyTool a).2 = .action a
  normalised : normalizeMcpToolName (registryMark ++ actionNameToMcpToolName a) = a
  settled : normalizeMcpToolName (normalizeMcpToolName (exposedName a)) = normalizeMcpToolName (exposedName a)
  asked : ∀ approvals, (preToolUse approvals (exposedName a)).1 = true ↔ approvals.lookup a = some true
  executed : ∀ approvals, approvedAction (preToolUse approvals (exposedName a)).2 = a

def Tool.Faithful : Tool → Prop
  | .action a => ActionFaithful a
  | .userTool server tool => parseUserMcpToolName (userToolName server tool) = some (server,tool)

/-- `mcp.` and two more parts, which look like a tool of a server. -/
def LikeServerTool (a : Text) : Prop := ∃ rest, a = "mcp.".toList ++ rest ∧ '.' ∈ rest

structure PlainAction (a : Text) : Prop where
  separable : Separable a
  unregistered : ¬ registryPath <:+: a
  external : ¬ "internal.".toList <+: a
  own : ¬ LikeServerTool a

def Tool.Plain : Tool → Prop
  | .action a => PlainAction a
  | .userTool server _ => PlainServer server

theorem Separable.not_pair {a : Text} (h : Separable a) : ¬ ['_','_'] <:+: a := by
  intro hi
  have hchain := List.IsChain.infix h hi
  exact ((List.isChain_cons_cons.mp hchain).1 rfl).1 rfl

theorem stripServer_dotted {rest : Text} : stripServer ("mcp.".toList ++ rest) ≠ "mcp.".toList ++ rest ↔ '.' ∈ rest := by
  have hmcp : "mcp.".toList.isPrefixOf ("mcp.".toList ++ rest) = true :=
    List.isPrefixOf_iff_prefix.mpr (List.prefix_append _ _)
  have hsplit : splitTwice ['.'] ("mcp.".toList ++ rest) = breakOn ['.'] rest := rfl
  rw [stripServer, if_pos hmcp, hsplit, ← breakOn_singleton]
  cases hparts : breakOn ['.'] rest with
  | none =>
    have hunder : ¬ "mcp__".toList.isPrefixOf ("mcp.".toList ++ rest) = true := Bool.false_ne_true
    dsimp only
    rw [if_neg hunder]
    simp
  | some parts =>
    simp only [Option.isSome_some, iff_true]
    intro heq
    have hlength := congrArg List.length heq
    rw [of_breakOn hparts] at hlength
    simp only [List.length_append, List.length_cons, List.length_nil] at hlength
    omega

theorem normalize_separable_iff {a : Text} (h : Separable a) (hpath : ¬ registryPath <:+: a) :
    normalizeMcpToolName a = a ↔ ¬ LikeServerTool a := by
  have hnotPath : ∀ u, ¬ (registryPath ++ u).isPrefixOf a = true := by
    intro u hu
    exact hpath ((List.prefix_append _ _).trans (List.isPrefixOf_iff_prefix.mp hu)).isInfix
  have hnotPath' : ¬ registryPath.isPrefixOf a = true := fun hu => hpath (List.isPrefixOf_iff_prefix.mp hu).isInfix
  have hpair : ['_','_'] <:+: registryMark := by decide
  have hnotMark : ∀ u, ¬ (registryMark ++ u).isPrefixOf a = true := by
    intro u hu
    exact h.not_pair (hpair.trans ((List.prefix_append _ _).trans (List.isPrefixOf_iff_prefix.mp hu)).isInfix)
  have hnotMark' : ¬ registryMark.isPrefixOf a = true := fun hu =>
    h.not_pair (hpair.trans (List.isPrefixOf_iff_prefix.mp hu).isInfix)
  have hunder : ¬ "mcp__".toList.isPrefixOf a = true := by
    intro hu
    have hpair' : ['_','_'] <:+: "mcp__".toList := by decide
    exact h.not_pair (hpair'.trans (List.isPrefixOf_iff_prefix.mp hu).isInfix)
  rw [normalizeMcpToolName, if_neg (hnotPath _), if_neg (hnotMark _), if_neg hnotPath', if_neg hnotMark']
  by_cases hmcp : "mcp.".toList <+: a
  · obtain ⟨rest,rfl⟩ := hmcp
    have hlike : LikeServerTool ("mcp.".toList ++ rest) ↔ '.' ∈ rest := by
      constructor
      · rintro ⟨rest',hrest,hdot⟩
        rwa [List.append_cancel_left hrest]
      · exact fun hdot => ⟨rest,rfl,hdot⟩
    rw [hlike, ← stripServer_dotted, not_not]
  · have hlike : ¬ LikeServerTool a := by
      rintro ⟨rest,hrest,-⟩
      exact hmcp ⟨rest,hrest.symm⟩
    rw [stripServer, if_neg fun hu => hmcp (List.isPrefixOf_iff_prefix.mp hu), if_neg hunder]
    simp [hlike]

theorem parse_eq_none_of_separable {a : Text} (h : Separable a) : parseUserMcpToolName a = none := by
  have hunder : "mcp__".toList.isPrefixOf a = false := by
    apply Bool.eq_false_iff.mpr
    intro hu
    have hpair : ['_','_'] <:+: "mcp__".toList := by decide
    exact h.not_pair (hpair.trans (List.isPrefixOf_iff_prefix.mp hu).isInfix)
  rw [parseUserMcpToolName, hunder]
  simp

theorem actionFaithful_iff (a : Text) : ActionFaithful a ↔ PlainAction a := by
  constructor
  · intro h
    obtain ⟨hsep,hpath⟩ := (normalize_action_iff a).mp h.normalised
    have hrouted := h.routed
    have hproxy : proxyTool a = if "internal.".toList.isPrefixOf a then (actionNameToMcpToolName a,.internal a)
        else (actionNameToMcpToolName a,.action a) := by
      rw [proxyTool, parse_eq_none_of_separable hsep]
    have hexternal : ¬ "internal.".toList <+: a := by
      intro hinternal
      rw [hproxy, if_pos (List.isPrefixOf_iff_prefix.mpr hinternal)] at hrouted
      cases hrouted
    have hexposed : exposedName a = registryMark ++ actionNameToMcpToolName a := by
      rw [exposedName, hproxy, if_neg fun hi => hexternal (List.isPrefixOf_iff_prefix.mp hi)]
    have hsettled := h.settled
    rw [hexposed, h.normalised] at hsettled
    exact ⟨hsep,hpath,hexternal,(normalize_separable_iff hsep hpath).mp hsettled⟩
  · rintro ⟨hsep,hpath,hexternal,hown⟩
    have hproxy : proxyTool a = (actionNameToMcpToolName a,.action a) := by
      rw [proxyTool, parse_eq_none_of_separable hsep]
      exact if_neg fun hi => hexternal (List.isPrefixOf_iff_prefix.mp hi)
    have hnormal : normalizeMcpToolName (exposedName a) = a := by
      rw [exposedName, hproxy]
      exact (normalize_action_iff a).mpr ⟨hsep,hpath⟩
    have hsettled : normalizeMcpToolName a = a := (normalize_separable_iff hsep hpath).mpr hown
    refine ⟨by rw [hproxy],(normalize_action_iff a).mpr ⟨hsep,hpath⟩,by rw [hnormal, hsettled],?_,?_⟩
    · intro approvals
      rw [preToolUse, hnormal]
      exact decide_eq_true_iff
    · intro approvals
      rw [preToolUse, hnormal]
      exact hsettled

theorem likeServerTool_of_toMcp {a server tool : Text} (h : Separable a)
    (heq : actionNameToMcpToolName a = userToolName server tool) : LikeServerTool a := by
  have hname : a = "mcp.".toList ++ mcpToolNameToActionName (server ++ '_' :: '_' :: tool) := by
    rw [← toAction_toMcp h, heq, userToolName_cons]
    rfl
  refine ⟨_,hname,?_⟩
  have hrest : Separable (mcpToolNameToActionName (server ++ '_' :: '_' :: tool)) := by
    rw [hname] at h
    exact List.IsChain.right_of_append h
  have hundotted : '.' ∉ server ++ '_' :: '_' :: tool := by
    intro hdot
    apply dot_notMem_actionNameToMcpToolName a
    rw [heq, userToolName_cons]
    simp only [List.mem_cons]
    exact .inr (.inr (.inr (.inr (.inr hdot))))
  by_contra hdot
  -- without a dot nothing was replaced, so there is no pair of underscores
  have hsame : mcpToolNameToActionName (server ++ '_' :: '_' :: tool) = server ++ '_' :: '_' :: tool := by
    have hid : ∀ s : Text, '.' ∉ s → actionNameToMcpToolName s = s := by
      intro s hs
      induction s with
      | nil => rfl
      | cons c cs ih =>
        rw [List.mem_cons, not_or] at hs
        rw [actionNameToMcpToolName_cons fun hc => hs.1 hc.symm, ih hs.2]
    rw [← hid _ hdot, toMcp_toAction hundotted]
  rw [hsame] at hrest
  exact hrest.not_pair ⟨server,tool,by simp⟩

theorem exposedName_inj {τ τ' : Tool} (h : τ.Plain) (h' : τ'.Plain) (heq : exposedName τ.name = exposedName τ'.name) :
    τ = τ' := by
  have hexposed : ∀ {a}, PlainAction a → exposedName a = registryMark ++ actionNameToMcpToolName a := by
    intro a ha
    rw [exposedName, proxyTool, parse_eq_none_of_separable ha.separable]
    dsimp only
    rw [if_neg fun hi => ha.external (List.isPrefixOf_iff_prefix.mp hi)]
  have huser : ∀ {s t}, PlainServer s → exposedName (userToolName s t) = registryMark ++ userToolName s t := by
    intro s t hs
    rw [exposedName, proxyTool, (parse_userToolName_iff s t).mpr hs]
  cases τ with
  | action a =>
    cases τ' with
    | action b =>
      rw [Tool.name, Tool.name, hexposed h, hexposed h'] at heq
      have hab := congrArg mcpToolNameToActionName (List.append_cancel_left heq)
      rw [toAction_toMcp h.separable, toAction_toMcp h'.separable] at hab
      rw [hab]
    | userTool s t =>
      rw [Tool.name, Tool.name, hexposed h, huser h'] at heq
      exact absurd (likeServerTool_of_toMcp h.separable (List.append_cancel_left heq)) h.own
  | userTool s t =>
    cases τ' with
    | action b =>
      rw [Tool.name, Tool.name, huser h, hexposed h'] at heq
      exact absurd (likeServerTool_of_toMcp h'.separable (List.append_cancel_left heq).symm) h'.own
    | userTool s' t' =>
      rw [Tool.name, Tool.name, huser h, huser h'] at heq
      have hparse := (parse_userToolName_iff s t).mpr h
      rw [List.append_cancel_left heq, (parse_userToolName_iff s' t').mpr h'] at hparse
      injection hparse with hparts
      injection hparts with hs ht
      rw [hs, ht]

theorem Tool.faithful_iff (τ : Tool) : τ.Faithful ↔ τ.Plain := by
  cases τ with
  | action a => exact actionFaithful_iff a
  | userTool server tool => exact parse_userToolName_iff server tool

/-- A second normalisation takes the server from the name of a user's tool. -/
theorem normalize_userTool_unsettled {server tool : Text} (h : ¬ registryMark <:+: userToolName server tool) :
    let name := normalizeMcpToolName (registryMark ++ userToolName server tool)
    normalizeMcpToolName name ≠ name := by
  intro name
  have hname : name = "mcp.".toList ++ mcpToolNameToActionName (server ++ '_' :: '_' :: tool) := by
    change normalizeMcpToolName _ = _
    rw [normalize_mark, removeWord_eq_self_of_absent h, userToolName_cons]
    rfl
  have hdot : '.' ∈ mcpToolNameToActionName (server ++ '_' :: '_' :: tool) := by
    generalize hrest : server ++ '_' :: '_' :: tool = rest
    have hpair : ['_','_'] <:+: rest := ⟨server,tool,by rw [← hrest]; simp⟩
    clear hrest
    fun_induction mcpToolNameToActionName rest with
    | case1 => exact absurd (List.infix_nil.mp hpair) (by simp)
    | case2 cs ih => exact List.mem_cons_self
    | case3 c cs hnot ih =>
      rcases List.infix_cons_iff.mp hpair with hprefix | hinfix
      · obtain ⟨u,hu⟩ := hprefix
        injection hu with hc hcs
        exact absurd hcs.symm (hnot u hc.symm)
      · exact List.mem_cons_of_mem _ (ih hinfix)
  intro heq
  rw [hname] at heq
  have hshort : ∀ {s : Text}, registryPath.isPrefixOf s = true → replaceFirst registryPath [] s ≠ s := by
    intro s hs hsame
    obtain ⟨t,rfl⟩ := List.isPrefixOf_iff_prefix.mp hs
    have hdropped : replaceFirst registryPath [] (registryPath ++ t) = t := replaceFirst_prefix registryPath [] t
    rw [hdropped] at hsame
    have hlength := congrArg List.length hsame
    rw [List.length_append, registryPath_cons] at hlength
    simp only [List.length_cons] at hlength
    omega
  generalize mcpToolNameToActionName (server ++ '_' :: '_' :: tool) = rest at heq hdot
  have hmark : ∀ u, (registryMark ++ u).isPrefixOf ("mcp.".toList ++ rest) = false := by
    intro u
    rw [registryMark_cons]
    rfl
  have hmark' : registryMark.isPrefixOf ("mcp.".toList ++ rest) = false := by
    rw [← List.append_nil registryMark]
    exact hmark []
  rw [normalizeMcpToolName, hmark, hmark'] at heq
  simp only [Bool.false_eq_true, if_false] at heq
  split at heq
  · rename_i hpath
    apply hshort _ heq
    exact List.isPrefixOf_iff_prefix.mpr ((List.prefix_append _ _).trans (List.isPrefixOf_iff_prefix.mp hpath))
  · split at heq
    · rename_i hpath
      exact hshort hpath heq
    · exact stripServer_dotted.mpr hdot heq

/-- The tools of an agent keep their names in every consumer, and apart from each other, exactly when each of them is
plain; a second normalisation never leaves the name of a user's tool. -/
theorem toolNames_iff (tools : List Tool) :
    (((∀ τ ∈ tools, τ.Faithful) ∧ ∀ τ ∈ tools, ∀ τ' ∈ tools, exposedName τ.name = exposedName τ'.name → τ = τ') ↔
      ∀ τ ∈ tools, τ.Plain) ∧
      ∀ server tool, ¬ registryMark <:+: userToolName server tool →
        normalizeMcpToolName (normalizeMcpToolName (registryMark ++ userToolName server tool)) ≠
          normalizeMcpToolName (registryMark ++ userToolName server tool) := by
  refine ⟨?_,fun server tool h => normalize_userTool_unsettled h⟩
  constructor
  · exact fun h τ hτ => (Tool.faithful_iff τ).mp (h.1 τ hτ)
  · intro h
    exact ⟨fun τ hτ => (Tool.faithful_iff τ).mpr (h τ hτ),fun τ hτ τ' hτ' => exposedName_inj (h τ hτ) (h τ' hτ')⟩

/-- An action with two underscores in its name, which requires approval, is run without it. -/
theorem approval_bypassed :
    let a := "tools.acme.get__user".toList
    (proxyTool a).2 = .action a ∧ (preToolUse [(a,true)] (exposedName a)).1 = false := by decide

end ToolNames
end Allama
