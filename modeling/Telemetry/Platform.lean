import Telemetry.Store.Meter

/-!
# Platform metrics

The gauges that every base scope shows of its process (specification, 4.6).
-/

namespace Telemetry

/-- The gauges, in the order in which they are registered. -/
def platformGauges : List (Metadata × PlatformFigure) :=
  [(⟨"cpu.availableProcessors", none, some "Number of processors available to the process"⟩,
      .availableProcessors),
   (⟨"process.uptime", some "seconds", some "Time since the process started"⟩, .uptime),
   (⟨"process.startTime", some "milliseconds",
      some "Process start time in milliseconds since the Unix epoch"⟩, .startTime),
   (⟨"thread.count", none, some "Current number of live threads"⟩, .threadCount),
   (⟨"memory.residentBytes", some "bytes", some "Resident set size of the process"⟩,
    .residentBytes)]

end Telemetry
