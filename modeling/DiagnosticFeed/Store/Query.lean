import DiagnosticFeed.Store

/-!
# Queries

Queries answer from what is stored, by tag and within a batch in the order of
its producer.  No suppressor and no severity rule has a part in them.
-/

namespace DiagnosticFeed.Store

def issuesWhere (s : Store) (file : String) (test : Span → Bool) : List Diagnostic :=
  ((s.batchesOf (.ofPath file)).flatMap (·.diagnostics)).filter fun d => test d.span

def issuesAt (s : Store) (file : String) (p : Point) : List Diagnostic :=
  s.issuesWhere file fun span => span.holds p

def issuesIn (s : Store) (file : String) (asked : Span) : List Diagnostic :=
  s.issuesWhere file fun span => span.meets asked

/-- The files with a batch that a file has triggered, by the first such tag. -/
def triggeredBy (s : Store) (trigger : String) : List FileKey :=
  distinct <| s.byTag.values.flatMap fun files =>
    (files.entries.filter fun e => e.2.trigger = some trigger).map (·.1)

end DiagnosticFeed.Store
