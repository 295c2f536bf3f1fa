import Kieker.Library.Nesting
import Kieker.Library.Steps
import Kieker.Library.Codec
import Kieker.Channel.Uses
import Kieker.Probes.Aspects
import Kieker.Probes.Controlflow
import Kieker.Application.Stream
import Kieker.Application.Plain
import Kieker.Application.Aspects
import Kieker.Connection.Failures
import Kieker.Connection.Ownership
import Kieker.Connection.Framing
import Kieker.Connection.Streams
import Kieker.Filter.Membership
import Kieker.Threads.Exclusion
import Kieker.Wire.Executions
import Kieker.Connection.Repetition
import Kieker.Connection.Identifiers
import Kieker.Probes.Symbols
import Kieker.Threads.Sections
import Kieker.Application.Inclusion
import Kieker.Application.Controlflow
import Kieker.Application.Order
import Kieker.Application.Introductions
import Kieker.Filter.Positions
import Kieker.Filter.Scanning
import Kieker.Filter.Arrays
import Kieker.Filter.Failing
import Kieker.Filter.Meaning
import Kieker.Wire.RoundTrip
import Kieker.Channel.Doubles
import Kieker.Channel.Overruns
import Kieker.Channel.Preloading
import Kieker.Connection.Announcing
import Kieker.Hash.Sections
import Kieker.Application.Profiling
import Kieker.Application.Pruning
import Kieker.Application.Mixture
import Kieker.Application.Timeline
import Kieker.Application.Resuming
