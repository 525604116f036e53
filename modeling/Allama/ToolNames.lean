import Mathlib.Data.List.Chain
import Allama.LikePatterns
import Allama.Identifiers

/-! The names of tools as the model sees them, and back (`agent/mcp/utils.py`, `agent/mcp/proxy_server.py`,
`agent/mcp/user_client.py`, `agent/runtime/claude_code/runtime.py`). -/
namespace Allama
namespace ToolNames
open LikePatterns

/-- `action_name_to_mcp_tool_name`: `replace(".", "__")`. -/
def actionNameToMcpToolName : Text → Text
  | [] => []
  | '.' :: cs => '_' :: '_' :: actionNameToMcpToolName cs
  | c :: cs => c :: actionNameToMcpToolName cs

/-- `mcp_tool_name_to_action_name`: `replace("__", ".")`. -/
def mcpToolNameToActionName : Text → Text
  | [] => []
  | '_' :: '_' :: cs => '.' :: mcpToolNameToActionName cs
  | c :: cs => c :: mcpToolNameToActionName cs

def breakOn (word : Text) : Text → Option (Text × Text)
  | [] => none
  | c :: cs =>
    if word.isPrefixOf (c :: cs) then some ([],(c :: cs).drop word.length)
    else (breakOn word cs).map fun parts => (c :: parts.1,parts.2)

/-- The second and the third part of `split(word, 2)`, where there are three. -/
def splitTwice (word : Text) (s : Text) : Option (Text × Text) := (breakOn word s).bind fun parts => breakOn word parts.2

def registryPath : Text := "mcp.allama-registry.".toList

def registryMark : Text := "mcp__allama-registry__".toList

/-- The end of `normalize_mcp_tool_name`, for servers that are not the registry. -/
def stripServer (name : Text) : Text :=
  match (if "mcp.".toList.isPrefixOf name then splitTwice ['.'] name else none) with
  | some parts => parts.2
  | none =>
    match (if "mcp__".toList.isPrefixOf name then splitTwice ['_','_'] name else none) with
    | some parts => mcpToolNameToActionName parts.2
    | none => name

def normalizeMcpToolName (name : Text) : Text :=
  if (registryPath ++ "mcp.".toList).isPrefixOf name then replaceFirst registryPath [] name
  else if (registryMark ++ "mcp__".toList).isPrefixOf name then mcpToolNameToActionName (removeWord registryMark 0 name)
  else if registryPath.isPrefixOf name then replaceFirst registryPath [] name
  else if registryMark.isPrefixOf name then mcpToolNameToActionName (removeWord registryMark 0 name)
  else stripServer name

def parseUserMcpToolName (name : Text) : Option (Text × Text) :=
  if registryMark.isPrefixOf name then none
  else if !"mcp__".toList.isPrefixOf name then none
  else splitTwice ['_','_'] name

/-- What the proxy server runs for a tool. -/
inductive Target
  | userTool (server tool : Text)
  | internal (name : Text)
  | action (name : Text)
deriving DecidableEq

/-- The tool that `create_proxy_mcp_server` makes of an allowed action: its name and what it runs. -/
def proxyTool (name : Text) : Text × Target :=
  match parseUserMcpToolName name with
  | some (server,tool) => (name,.userTool server tool)
  | none =>
    if "internal.".toList.isPrefixOf name then (actionNameToMcpToolName name,.internal name)
    else (actionNameToMcpToolName name,.action name)

/-- The name under which `discover_user_mcp_tools` allows a tool of a server. -/
def userToolName (server tool : Text) : Text := "mcp__".toList ++ server ++ "__".toList ++ tool

/-- The name that the model sees: the SDK puts the server of the proxy in front. -/
def exposedName (name : Text) : Text := registryMark ++ (proxyTool name).1

/-- `_pre_tool_use_hook`: whether it asks for approval, and the name in the request. -/
def preToolUse (toolApprovals : List (Text × Bool)) (toolName : Text) : Bool × Text :=
  (toolApprovals.lookup (normalizeMcpToolName toolName) = some true,normalizeMcpToolName toolName)

/-- The action that `execute_approved_tools_activity` runs for the name in a request. -/
def approvedAction (requested : Text) : Text := normalizeMcpToolName requested

def Separable (name : Text) : Prop := name.IsChain fun c d => c = '_' → d ≠ '_' ∧ d ≠ '.'

section Replace
variable {name : Text}

-- the equations of the two replacements and of the search for a word
attribute [local simp] mcpToolNameToActionName actionNameToMcpToolName breakOn

theorem actionNameToMcpToolName_cons {c : Char} (hc : c ≠ '.') (cs : Text) :
    actionNameToMcpToolName (c :: cs) = c :: actionNameToMcpToolName cs := by
  rw [actionNameToMcpToolName]
  exact hc

theorem actionNameToMcpToolName_append (s t : Text) :
    actionNameToMcpToolName (s ++ t) = actionNameToMcpToolName s ++ actionNameToMcpToolName t := by
  induction s with
  | nil => rfl
  | cons c cs ih =>
    by_cases hc : c = '.'
    · subst hc
      rw [List.cons_append, actionNameToMcpToolName, ih, actionNameToMcpToolName]
      rfl
    · rw [List.cons_append, actionNameToMcpToolName_cons hc, ih, actionNameToMcpToolName_cons hc]
      rfl

theorem dot_notMem_actionNameToMcpToolName (s : Text) : '.' ∉ actionNameToMcpToolName s := by
  induction s with
  | nil => exact List.not_mem_nil
  | cons c cs ih =>
    by_cases hc : c = '.'
    · subst hc
      rw [actionNameToMcpToolName]
      simp [ih]
    · rw [actionNameToMcpToolName_cons hc, List.mem_cons, not_or]
      exact ⟨fun h => hc h.symm,ih⟩

theorem toMcp_toAction (h : '.' ∉ name) : actionNameToMcpToolName (mcpToolNameToActionName name) = name := by
  fun_induction mcpToolNameToActionName name with
  | case1 => rfl
  | case2 cs ih =>
    rw [actionNameToMcpToolName, ih fun hmem => h (by simp [hmem])]
  | case3 c cs hpair ih =>
    have hc : c ≠ '.' := by
      rintro rfl
      exact h List.mem_cons_self
    rw [actionNameToMcpToolName_cons hc, ih fun hmem => h (List.mem_cons_of_mem _ hmem)]

theorem mcpToolNameToActionName_cons {c : Char} {cs : Text} (h : c = '_' → cs.head? ≠ some '_') :
    mcpToolNameToActionName (c :: cs) = c :: mcpToolNameToActionName cs := by
  rw [mcpToolNameToActionName]
  rintro cs' rfl rfl
  exact h rfl rfl

theorem head?_toMcp (s : Text) (h : s.head? ≠ some '_') (hdot : s.head? ≠ some '.') :
    (actionNameToMcpToolName s).head? ≠ some '_' := by
  cases s with
  | nil => exact h
  | cons c cs =>
    have hc : c ≠ '.' := fun heq => hdot (by rw [heq]; rfl)
    rw [actionNameToMcpToolName_cons hc]
    exact h

theorem Separable.tail {c : Char} {cs : Text} (h : Separable (c :: cs)) : Separable cs := List.IsChain.tail h

theorem Separable.head {c : Char} {cs : Text} (h : Separable (c :: cs)) (hc : c = '_') :
    cs.head? ≠ some '_' ∧ cs.head? ≠ some '.' := by
  cases cs with
  | nil => exact ⟨nofun,nofun⟩
  | cons d ds =>
    obtain ⟨hu,hd⟩ := (List.isChain_cons_cons.mp h).1 hc
    exact ⟨fun heq => hu (Option.some.inj heq),fun heq => hd (Option.some.inj heq)⟩

theorem toAction_toMcp (h : Separable name) : mcpToolNameToActionName (actionNameToMcpToolName name) = name := by
  induction name with
  | nil => rfl
  | cons c cs ih =>
    by_cases hc : c = '.'
    · subst hc
      rw [actionNameToMcpToolName, mcpToolNameToActionName, ih h.tail]
    · rw [actionNameToMcpToolName_cons hc, mcpToolNameToActionName_cons, ih h.tail]
      intro hu
      exact head?_toMcp cs (h.head hu).1 (h.head hu).2

theorem head?_toAction {s : Text} (h : s.head? ≠ some '_') : (mcpToolNameToActionName s).head? = s.head? := by
  cases s with
  | nil => rfl
  | cons c cs =>
    have hc : c ≠ '_' := fun heq => h (by rw [heq]; rfl)
    rw [mcpToolNameToActionName_cons fun heq => absurd heq hc]
    rfl

theorem separable_toAction (h : '.' ∉ name) : Separable (mcpToolNameToActionName name) := by
  have hcons : ∀ {c : Char} {cs : Text}, Separable cs → (c = '_' → cs.head? ≠ some '_' ∧ cs.head? ≠ some '.') →
      Separable (c :: cs) := by
    intro c cs hcs hc
    cases cs with
    | nil => exact List.isChain_singleton _
    | cons d ds =>
      refine List.isChain_cons_cons.mpr ⟨fun hu => ?_,hcs⟩
      exact ⟨fun heq => (hc hu).1 (by rw [heq]; rfl),fun heq => (hc hu).2 (by rw [heq]; rfl)⟩
  fun_induction mcpToolNameToActionName name with
  | case1 => exact List.isChain_nil
  | case2 cs ih =>
    exact hcons (ih fun hmem => h (by simp [hmem])) fun hu => absurd hu (by decide)
  | case3 c cs hpair ih =>
    refine hcons (ih fun hmem => h (List.mem_cons_of_mem _ hmem)) ?_
    rintro rfl
    have hhead : cs.head? ≠ some '_' := by
      intro heq
      cases cs with
      | nil => cases heq
      | cons d ds => exact hpair ds rfl (by rw [Option.some.inj heq])
    have hdot : cs.head? ≠ some '.' := by
      intro heq
      cases cs with
      | nil => cases heq
      | cons d ds =>
        apply h
        rw [Option.some.inj heq]
        simp
    rw [head?_toAction hhead]
    exact ⟨hhead,hdot⟩

theorem mcpToolNameToActionName_append (s : Text) {c : Char} (hc : c ≠ '_') (t : Text) :
    mcpToolNameToActionName (s ++ c :: t) = mcpToolNameToActionName s ++ mcpToolNameToActionName (c :: t) := by
  fun_induction mcpToolNameToActionName s with
  | case1 => rfl
  | case2 cs ih =>
    rw [List.cons_append, List.cons_append, mcpToolNameToActionName, ih]
    rfl
  | case3 d cs hpair ih =>
    rw [List.cons_append, mcpToolNameToActionName_cons, ih, List.cons_append]
    rintro rfl
    cases cs with
    | nil =>
      intro heq
      exact hc (Option.some.inj heq)
    | cons e es => exact fun heq => hpair es rfl (by rw [← Option.some.inj heq])

end Replace

section RemoveWord
variable {word : Text}

theorem removeWord_skip (s t : Text) : removeWord word s.length (s ++ t) = removeWord word 0 t := by
  induction s with
  | nil => rfl
  | cons c cs ih => exact ih

theorem removeWord_append {c : Char} {cs : Text} (t : Text) :
    removeWord (c :: cs) 0 (c :: cs ++ t) = removeWord (c :: cs) 0 t := by
  have hprefix : (c :: cs).isPrefixOf (c :: (cs ++ t)) = true :=
    List.isPrefixOf_iff_prefix.mpr (List.prefix_append (c :: cs) t)
  rw [List.cons_append, removeWord, if_pos hprefix]
  exact removeWord_skip cs t

theorem removeWord_eq_self_of_absent {s : Text} (h : ¬ word <:+: s) : removeWord word 0 s = s := by
  induction s with
  | nil => rfl
  | cons c cs ih =>
    have hprefix : word.isPrefixOf (c :: cs) ≠ true := fun hp => h (List.isPrefixOf_iff_prefix.mp hp).isInfix
    rw [removeWord, if_neg hprefix, ih fun hi => h (hi.trans (List.suffix_cons c cs).isInfix)]

theorem length_removeWord_le (s : Text) : ∀ skip, (removeWord word skip s).length ≤ s.length := by
  induction s with
  | nil =>
    intro skip
    cases skip <;> exact le_rfl
  | cons c cs ih =>
    intro skip
    cases skip with
    | succ skip => exact (ih skip).trans (Nat.le_succ _)
    | zero =>
      rw [removeWord]
      split
      · exact (ih _).trans (Nat.le_succ _)
      · exact Nat.succ_le_succ (ih 0)

theorem length_removeWord_lt {s : Text} (hne : word ≠ []) (h : word <:+: s) : (removeWord word 0 s).length < s.length := by
  induction s with
  | nil => exact absurd (List.infix_nil.mp h) hne
  | cons c cs ih =>
    rw [removeWord]
    split
    · exact Nat.lt_succ_of_le (length_removeWord_le cs _)
    · rename_i hprefix
      rcases List.infix_cons_iff.mp h with hp | hi
      · exact absurd (List.isPrefixOf_iff_prefix.mpr hp) hprefix
      · exact Nat.succ_lt_succ (ih hi)

theorem mem_of_mem_removeWord {d : Char} (s : Text) : ∀ skip, d ∈ removeWord word skip s → d ∈ s := by
  induction s with
  | nil =>
    intro skip h
    cases skip <;> exact h
  | cons c cs ih =>
    intro skip h
    cases skip with
    | succ skip => exact List.mem_cons_of_mem _ (ih skip h)
    | zero =>
      rw [removeWord] at h
      split at h
      · exact List.mem_cons_of_mem _ (ih _ h)
      · rcases List.mem_cons.mp h with rfl | h
        · exact List.mem_cons_self
        · exact List.mem_cons_of_mem _ (ih 0 h)

end RemoveWord

theorem registryMark_cons : registryMark = 'm' :: 'c' :: 'p' :: '_' :: '_' :: "allama-registry__".toList := by decide

theorem registryPath_cons : registryPath = 'm' :: 'c' :: 'p' :: '.' :: "allama-registry.".toList := by decide

theorem toMcp_registryPath : actionNameToMcpToolName registryPath = registryMark := by decide

theorem normalize_mark (t : Text) :
    normalizeMcpToolName (registryMark ++ t) = mcpToolNameToActionName (removeWord registryMark 0 t) := by
  have hpath : ∀ u, (registryPath ++ u).isPrefixOf (registryMark ++ t) = false := by
    intro u
    rw [registryPath_cons, registryMark_cons]
    rfl
  have hpath' : registryPath.isPrefixOf (registryMark ++ t) = false := by
    rw [← List.append_nil registryPath]
    exact hpath []
  have hmark : registryMark.isPrefixOf (registryMark ++ t) = true :=
    List.isPrefixOf_iff_prefix.mpr (List.prefix_append _ _)
  have hremove : removeWord registryMark 0 (registryMark ++ t) = removeWord registryMark 0 t := by
    rw [registryMark_cons]
    exact removeWord_append t
  rw [normalizeMcpToolName, hpath, hpath', hmark, hremove]
  simp

theorem infix_toMcp {a : Text} (h : Separable a) : registryMark <:+: actionNameToMcpToolName a ↔ registryPath <:+: a := by
  constructor
  · rintro ⟨s,t,hst⟩
    have hname : a = mcpToolNameToActionName (s ++ 'm' :: ('c' :: 'p' :: '_' :: '_' :: "allama-registry__".toList ++ t)) := by
      rw [← toAction_toMcp h, ← hst, registryMark_cons, List.append_assoc]
      rfl
    have hend : mcpToolNameToActionName ('m' :: ('c' :: 'p' :: '_' :: '_' :: "allama-registry__".toList ++ t)) =
        registryPath ++ mcpToolNameToActionName t := by
      rw [registryPath_cons]
      rfl
    rw [mcpToolNameToActionName_append s (by decide), hend] at hname
    exact ⟨mcpToolNameToActionName s,mcpToolNameToActionName t,by rw [hname, List.append_assoc]⟩
  · rintro ⟨s,t,rfl⟩
    refine ⟨actionNameToMcpToolName s,actionNameToMcpToolName t,?_⟩
    rw [actionNameToMcpToolName_append, actionNameToMcpToolName_append, toMcp_registryPath]

theorem normalize_action_iff (a : Text) :
    normalizeMcpToolName (registryMark ++ actionNameToMcpToolName a) = a ↔ Separable a ∧ ¬ registryPath <:+: a := by
  rw [normalize_mark]
  constructor
  · intro h
    have hdot : '.' ∉ removeWord registryMark 0 (actionNameToMcpToolName a) := fun hmem =>
      dot_notMem_actionNameToMcpToolName a (mem_of_mem_removeWord _ 0 hmem)
    have hsep : Separable a := by
      rw [← h]
      exact separable_toAction hdot
    refine ⟨hsep,fun hpath => ?_⟩
    -- nothing was removed, since the name gives the text back
    have hkept : actionNameToMcpToolName a = removeWord registryMark 0 (actionNameToMcpToolName a) := by
      rw [← toMcp_toAction hdot, h]
    have hlt := length_removeWord_lt (by decide) ((infix_toMcp hsep).mpr hpath)
    rw [← hkept] at hlt
    exact lt_irrefl _ hlt
  · rintro ⟨hsep,hpath⟩
    rw [removeWord_eq_self_of_absent fun hi => hpath ((infix_toMcp hsep).mp hi), toAction_toMcp hsep]

section BreakOn
variable {word : Text}

theorem of_breakOn {s : Text} {parts : Text × Text} (h : breakOn word s = some parts) : s = parts.1 ++ word ++ parts.2 := by
  induction s generalizing parts with
  | nil => cases h
  | cons c cs ih =>
    rw [breakOn] at h
    split at h
    · rename_i hprefix
      obtain ⟨t,ht⟩ := List.isPrefixOf_iff_prefix.mp hprefix
      rw [← Option.some.inj h, ← ht]
      simp
    · obtain ⟨⟨before,after⟩,hparts,rfl⟩ := Option.map_eq_some_iff.mp h
      rw [ih hparts]
      rfl

theorem breakOn_singleton {c : Char} {s : Text} : (breakOn [c] s).isSome ↔ c ∈ s := by
  induction s with
  | nil => simp [breakOn]
  | cons d ds ih =>
    rw [breakOn]
    by_cases hd : c = d
    · subst hd
      simp
    · simp [hd, ih]

theorem breakOn_pair {s t : Text} : breakOn ['_','_'] (s ++ '_' :: '_' :: t) = some (s,t) ↔
    (s ++ ['_']).IsChain fun c d => c = '_' → d ≠ '_' := by
  induction s with
  | nil => simp [breakOn]
  | cons c cs ih =>
    have hnext : ∃ d ds, cs ++ '_' :: '_' :: t = d :: ds ∧ ∃ es, cs ++ ['_'] = d :: es := by
      cases cs with
      | nil => exact ⟨'_','_' :: t,rfl,[],rfl⟩
      | cons d ds => exact ⟨d,ds ++ '_' :: '_' :: t,rfl,ds ++ ['_'],rfl⟩
    obtain ⟨d,ds,hd,es,hes⟩ := hnext
    rw [List.cons_append, List.cons_append, breakOn]
    by_cases hpair : c = '_' ∧ d = '_'
    · obtain ⟨rfl,rfl⟩ := hpair
      have hprefix : ['_','_'].isPrefixOf ('_' :: (cs ++ '_' :: '_' :: t)) = true := by
        rw [hd]
        rfl
      rw [if_pos hprefix, hes, List.isChain_cons_cons]
      simp
    · have hprefix : ¬ ['_','_'].isPrefixOf (c :: (cs ++ '_' :: '_' :: t)) = true := by
        rw [hd, List.isPrefixOf_iff_prefix, List.cons_prefix_cons, List.cons_prefix_cons]
        rintro ⟨rfl,rfl,-⟩
        exact hpair ⟨rfl,rfl⟩
      have hmap : (breakOn ['_','_'] (cs ++ '_' :: '_' :: t)).map (fun parts => (c :: parts.1,parts.2)) = some (c :: cs,t) ↔
          breakOn ['_','_'] (cs ++ '_' :: '_' :: t) = some (cs,t) := by
        cases breakOn ['_','_'] (cs ++ '_' :: '_' :: t) with
        | none => simp
        | some parts => simp [Prod.ext_iff]
      rw [if_neg hprefix, hmap, ih, hes, List.isChain_cons_cons]
      exact ⟨fun h => ⟨fun hc heq => hpair ⟨hc,heq⟩,h⟩,fun h => h.2⟩

end BreakOn

def PlainServer (server : Text) : Prop :=
  ((server ++ ['_']).IsChain fun c d => c = '_' → d ≠ '_') ∧ server ≠ "allama-registry".toList

theorem userToolName_append (server tool : Text) :
    userToolName server tool = "mcp__".toList ++ (server ++ ("__".toList ++ tool)) := by
  show "mcp__".toList ++ server ++ "__".toList ++ tool = _
  rw [List.append_assoc, List.append_assoc]

theorem userToolName_cons (server tool : Text) :
    userToolName server tool = 'm' :: 'c' :: 'p' :: '_' :: '_' :: (server ++ '_' :: '_' :: tool) := by
  rw [userToolName_append]
  rfl

theorem parse_userToolName_iff (server tool : Text) :
    parseUserMcpToolName (userToolName server tool) = some (server,tool) ↔ PlainServer server := by
  have hmcp : "mcp__".toList.isPrefixOf (userToolName server tool) = true := by
    rw [userToolName_append]
    exact List.isPrefixOf_iff_prefix.mpr (List.prefix_append _ _)
  have hsplit : splitTwice ['_','_'] (userToolName server tool) = breakOn ['_','_'] (server ++ '_' :: '_' :: tool) := by
    rw [userToolName_cons]
    rfl
  have hmark : registryMark.isPrefixOf (userToolName server tool) = true ↔
      "allama-registry".toList ++ ['_','_'] <+: server ++ '_' :: '_' :: tool := by
    rw [userToolName_cons, registryMark_cons, List.isPrefixOf_iff_prefix]
    simp only [List.cons_prefix_cons, true_and]
    exact Iff.rfl
  rw [parseUserMcpToolName, hmcp, hsplit, PlainServer, ← breakOn_pair (t := tool)]
  simp only [Bool.not_true, Bool.false_eq_true, if_false, hmark]
  constructor
  · intro h
    split at h
    · cases h
    · rename_i hregistry
      refine ⟨h,?_⟩
      rintro rfl
      apply hregistry
      rw [List.append_cons, List.append_cons, List.append_assoc, List.append_assoc]
      exact ⟨tool,by simp⟩
  · rintro ⟨h,hserver⟩
    rw [if_neg]
    · exact h
    · rintro ⟨t,ht⟩
      apply hserver
      have hregistry : breakOn ['_','_'] ("allama-registry".toList ++ '_' :: '_' :: t) = some ("allama-registry".toList,t) :=
        breakOn_pair.mpr (by decide)
      have hsame : "allama-registry".toList ++ '_' :: '_' :: t = server ++ '_' :: '_' :: tool := by
        rw [← ht]
        simp
      rw [hsame, h] at hregistry
      exact congrArg Prod.fst (Option.some.inj hregistry)

end ToolNames
end Allama
