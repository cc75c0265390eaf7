import Mustache.Host.Script
import Mustache.Number.FloatText
import Mustache.Proofs.Cut
import Mustache.Proofs.Inline
import Mustache.Proofs.RoundTrip
import Mustache.Proofs.Standalone
import Mustache.Template
import Mustache.Value.Description
import Mustache.Proofs.Balance
import Mustache.Proofs.Calls
import Mustache.Proofs.Scope
import Mustache.Proofs.Site
import Mustache.Proofs.RawText
import Mustache.Proofs.Excerpt
import Mustache.Proofs.Reparse
import Mustache.Proofs.CrlfDocument
import Mustache.Proofs.Failure
import Mustache.Proofs.Escaping
import Mustache.Proofs.CrlfRender
import Mustache.Proofs.Recall
import Mustache.Proofs.Layers
import Mustache.Proofs.Finish
import Mustache.Proofs.Ending
import Mustache.Proofs.Innermost
import Mustache.Proofs.Pruning
import Mustache.Proofs.Dotted
import Mustache.Proofs.Unused
import Mustache.Proofs.Opposite
import Mustache.Proofs.Unindented
import Mustache.Proofs.Substitution
import Mustache.Proofs.ChangeBody
import Mustache.Proofs.Unescaping
import Mustache.Proofs.Braces
import Mustache.Proofs.FirstFault
import Mustache.Proofs.IndentLines
import Mustache.Proofs.JsonForm
