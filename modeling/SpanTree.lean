import SpanTree.Config.File
import SpanTree.Engine
import SpanTree.Proofs.Covering
import SpanTree.Proofs.Target
import SpanTree.Proofs.Fragment
import SpanTree.Proofs.Tagging
import SpanTree.Proofs.Pattern
import SpanTree.Proofs.Strictness
import SpanTree.Proofs.Agreement
import SpanTree.Proofs.Nesting
import SpanTree.Proofs.Trace
import SpanTree.Proofs.Exactness
import SpanTree.Proofs.TargetTrace
import SpanTree.Proofs.TargetErrors
import SpanTree.Proofs.Window
import SpanTree.Proofs.Masking
import SpanTree.Proofs.Positions
import SpanTree.Proofs.Leniency
import SpanTree.Proofs.Utf8.Character
import SpanTree.Proofs.Utf8.Decoding
import SpanTree.Proofs.History
import SpanTree.Proofs.Requests
import SpanTree.Proofs.Families
import SpanTree.Proofs.Config.File
import SpanTree.Proofs.Deepest
import SpanTree.Proofs.Metavariables
import SpanTree.Proofs.Unmasking
import SpanTree.Proofs.Wildcards
import SpanTree.Proofs.Tokens
import SpanTree.Proofs.Choice
import SpanTree.Proofs.Acceptance
import SpanTree.Proofs.Atomicity
import SpanTree.Proofs.Letters
import SpanTree.Proofs.Counting
import SpanTree.Proofs.Lines
import SpanTree.Proofs.Preorder
